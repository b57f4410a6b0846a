import IsolationServer.CommandPrograms
import Mathlib.Data.Finset.Insert
import Mathlib.Data.List.Range
import Mathlib.Tactic.Cases

/-!
# The accept loop

`Accept` starts one asynchronous accept. Its completion handler runs on any of the
threads of the `io_context`, hands the connection to the delegator and calls `Accept`
again, so the loop goes round as long as each handler gets to its end. `Stop` may be
called from elsewhere at any moment. An error ends the loop without a trace other than a
message, and an exception of the handler, its delegator included, ends the process.
-/
namespace IsolationServer.Acceptance
open CommandPrograms Runs

/-- Connections are numbered in the order in which they are accepted. `pending` counts the
operations of `async_accept` that have not completed; the handlers of those in `ready`
wait for a thread. `reset` are the connections whose peer has gone away, `inside` those
that the delegator is busy with. The process ends with the exception of a handler; what
else ends it ends the run. -/
structure Listener where
  isStopped : Bool := false
  closed : Bool := false
  pending : ℕ := 0
  ready : List (Option ℕ) := []
  accepted : ℕ := 0
  reset : Finset ℕ := ∅
  delegated : List ℕ := []
  inside : List ℕ := []
  failed : Bool := false
  terminated : Bool := false

/-- The listener after the call of `Accept` in `main`. -/
def Listener.listening : Listener := { pending := 1 }

inductive Command where
  | asyncAccept
  | dequeue
  | isStopped
  | remoteEndpoint (connection : ℕ)
  | setNoDelay (connection : ℕ)
  | enterDelegator (connection : ℕ)
  | leaveDelegator (connection : ℕ)
  | terminate
  | setStopped
  | close
  | connect
  | fail
  | disconnect (connection : ℕ)
  deriving DecidableEq

/-- The completion of an accept is a connection, or an error. A delegator returns, or is
left by an exception. -/
abbrev Reply : Command → Type
  | .dequeue => Option ℕ
  | .isStopped => Bool
  | .remoteEndpoint _ => Bool
  | .setNoDelay _ => Bool
  | .leaveDelegator _ => Bool
  | _ => Unit

/-- The connections on which the system refuses `set_option`, and those with which the
delegator throws: `AddClient` writes to the store, and the store may be gone. -/
structure Faults where
  refuses : ℕ → Bool := fun _ => false
  throws : ℕ → Bool := fun _ => false

/-- A process that has been terminated does nothing any more. -/
def exec (faults : Faults) (c : Command) (l : Listener) : Option (Reply c × Listener) :=
  if l.terminated = true then none else
    match c with
    | .asyncAccept =>
      if l.closed = true then some ((), { l with ready := l.ready ++ [none] })
      else some ((), { l with pending := l.pending + 1 })
    | .dequeue =>
      match l.ready with
      | [] => none
      | completed :: rest =>
        some (completed, { l with ready := rest, failed := l.failed || completed.isNone })
    | .isStopped => some (l.isStopped, l)
    | .remoteEndpoint connection => some (!decide (connection ∈ l.reset), l)
    | .setNoDelay connection => some (!faults.refuses connection, l)
    | .enterDelegator connection => some ((), { l with
        delegated := l.delegated ++ [connection], inside := l.inside ++ [connection] })
    | .leaveDelegator connection =>
      some (!faults.throws connection, { l with inside := l.inside.erase connection })
    | .terminate => some ((), { l with terminated := true })
    | .setStopped => some ((), { l with isStopped := true })
    | .close => some ((), { l with
        closed := true, pending := 0, ready := l.ready ++ List.replicate l.pending none })
    | .connect =>
      match l.pending with
      | 0 => none
      | pending + 1 => some ((), { l with
          pending := pending, ready := l.ready ++ [some l.accepted], accepted := l.accepted + 1 })
    | .fail =>
      match l.pending with
      | 0 => none
      | pending + 1 => some ((), { l with pending := pending, ready := l.ready ++ [none] })
    | .disconnect connection =>
      if connection < l.accepted then some ((), { l with reset := insert connection l.reset })
      else none

/-- Everything that a command can reply and do. -/
inductive Executed (faults : Faults) (l : Listener) :
    (c : Command) → Reply c → Listener → Prop where
  | aborted (h : l.closed = true) :
      Executed faults l .asyncAccept () { l with ready := l.ready ++ [none] }
  | asyncAccept (h : l.closed = false) :
      Executed faults l .asyncAccept () { l with pending := l.pending + 1 }
  | dequeue (completed : Option ℕ) (rest : List (Option ℕ)) (h : l.ready = completed :: rest) :
      Executed faults l .dequeue completed
        { l with ready := rest, failed := l.failed || completed.isNone }
  | isStopped (stopped : Bool) (h : l.isStopped = stopped) : Executed faults l .isStopped stopped l
  | remoteEndpoint (connection : ℕ) (connected : Bool)
      (h : connected = false → connection ∈ l.reset) :
      Executed faults l (.remoteEndpoint connection) connected l
  | setNoDelay (connection : ℕ) (noDelay : Bool)
      (h : noDelay = false → faults.refuses connection = true) :
      Executed faults l (.setNoDelay connection) noDelay l
  | enterDelegator (connection : ℕ) : Executed faults l (.enterDelegator connection) () { l with
      delegated := l.delegated ++ [connection], inside := l.inside ++ [connection] }
  | leaveDelegator (connection : ℕ) (returned : Bool)
      (h : returned = false → faults.throws connection = true) :
      Executed faults l (.leaveDelegator connection) returned
        { l with inside := l.inside.erase connection }
  | terminate : Executed faults l .terminate () { l with terminated := true }
  | setStopped : Executed faults l .setStopped () { l with isStopped := true }
  | close : Executed faults l .close () { l with
      closed := true, pending := 0, ready := l.ready ++ List.replicate l.pending none }
  | connect (pending : ℕ) (h : l.pending = pending + 1) : Executed faults l .connect () { l with
      pending := pending, ready := l.ready ++ [some l.accepted], accepted := l.accepted + 1 }
  | fail (pending : ℕ) (h : l.pending = pending + 1) : Executed faults l .fail ()
      { l with pending := pending, ready := l.ready ++ [none] }
  | disconnect (connection : ℕ) : Executed faults l (.disconnect connection) ()
      { l with reset := insert connection l.reset }

theorem executed_of_exec {faults : Faults} {c : Command} {r : Reply c} {l l' : Listener}
    (h : exec faults c l = some (r, l')) : l.terminated = false ∧ Executed faults l c r l' := by
  unfold exec at h
  split at h
  · cases h
  · rename_i hrun
    refine ⟨by simpa using hrun, ?_⟩
    cases c with
    | asyncAccept =>
      dsimp only at h
      split at h
      · rename_i hclosed
        cases h
        exact .aborted hclosed
      · rename_i hclosed
        cases h
        exact .asyncAccept (by simpa using hclosed)
    | dequeue =>
      dsimp only at h
      split at h
      · cases h
      · rename_i completed rest hready
        cases h
        exact .dequeue _ rest hready
    | connect =>
      dsimp only at h
      split at h
      · cases h
      · rename_i pending hpending
        cases h
        exact .connect pending hpending
    | fail =>
      dsimp only at h
      split at h
      · cases h
      · rename_i pending hpending
        cases h
        exact .fail pending hpending
    | disconnect connection =>
      dsimp only at h
      split at h
      · cases h
        exact .disconnect connection
      · cases h
    | isStopped =>
      cases h
      exact .isStopped _ rfl
    | remoteEndpoint connection =>
      cases h
      exact .remoteEndpoint _ _ (by simp)
    | setNoDelay connection =>
      cases h
      exact .setNoDelay _ _ (by simp)
    | leaveDelegator connection =>
      cases h
      exact .leaveDelegator _ _ (by simp)
    | _ =>
      cases h
      constructor

abbrev AcceptProgram := Program Command Reply Unit

abbrev call (c : Command) : Program Command Reply (Reply c) := Program.call c

def accept : AcceptProgram := call .asyncAccept

/-- The completion handler. Nothing catches what `remote_endpoint`, `set_option` and the
delegator throw: it leaves the thread function, which ends the process. -/
def acceptHandler : AcceptProgram := do
  let completed ← call .dequeue
  match completed with
  | none => return
  | some connection =>
    let stopped ← call .isStopped
    if stopped = true then return else
    let connected ← call (.remoteEndpoint connection)
    if connected = false then call .terminate else
    let noDelay ← call (.setNoDelay connection)
    if noDelay = false then call .terminate else
    call (.enterDelegator connection)
    let returned ← call (.leaveDelegator connection)
    if returned = false then call .terminate else
    let stoppedMeanwhile ← call .isStopped
    if stoppedMeanwhile = false then accept else return

def stop : AcceptProgram := do
  let stopped ← call .isStopped
  if stopped = true then return else
  call .setStopped
  call .close

/-- The threads of the `io_context`, those that call `Stop`, and the peers with the
operating system. -/
inductive Thread where
  | io (n : ℕ)
  | control (n : ℕ)
  | network
  deriving DecidableEq

inductive Activity where
  | handle
  | stop
  | connect
  | fail
  | disconnect (connection : ℕ)
  deriving DecidableEq

def body : Thread → Activity → AcceptProgram
  | .io _, .handle => acceptHandler
  | .control _, .stop => stop
  | .network, .connect => call .connect
  | .network, .fail => call .fail
  | .network, .disconnect connection => call (.disconnect connection)
  | _, _ => return

abbrev AcceptorPool := Pool Thread Activity Command Reply Listener

def acceptor (faults : Faults) : System Thread Activity Command Reply Listener where
  exec := exec faults
  body := body
  allows _ _ _ := true

/-! ## Where the loop is -/

/-- The point of a completion handler between its commands. -/
inductive Stage where
  | idle
  | checking (connection : ℕ)
  | naming (connection : ℕ)
  | setting (connection : ℕ)
  | entering (connection : ℕ)
  | delegating (connection : ℕ)
  | asking
  | rearming
  | dying (connection : ℕ)
  | throwing (connection : ℕ)

/-- The commands of the other threads. -/
def Outside : Command → Prop
  | .isStopped => True
  | .setStopped => True
  | .close => True
  | .connect => True
  | .fail => True
  | .disconnect _ => True
  | _ => False

inductive Move : Thread → Stage → (c : Command) → Reply c → Stage → Prop where
  | take (n connection : ℕ) :
      Move (.io n) .idle .dequeue (some connection) (.checking connection)
  | error (n : ℕ) : Move (.io n) .idle .dequeue none .idle
  | pass (n connection : ℕ) : Move (.io n) (.checking connection) .isStopped false
      (.naming connection)
  | drop (n connection : ℕ) : Move (.io n) (.checking connection) .isStopped true .idle
  | named (n connection : ℕ) : Move (.io n) (.naming connection) (.remoteEndpoint connection) true
      (.setting connection)
  | unnamed (n connection : ℕ) : Move (.io n) (.naming connection) (.remoteEndpoint connection)
      false (.dying connection)
  | set (n connection : ℕ) : Move (.io n) (.setting connection) (.setNoDelay connection) true
      (.entering connection)
  | unset (n connection : ℕ) : Move (.io n) (.setting connection) (.setNoDelay connection) false
      (.dying connection)
  | enter (n connection : ℕ) : Move (.io n) (.entering connection) (.enterDelegator connection) ()
      (.delegating connection)
  | leave (n connection : ℕ) : Move (.io n) (.delegating connection) (.leaveDelegator connection)
      true .asking
  | thrown (n connection : ℕ) : Move (.io n) (.delegating connection) (.leaveDelegator connection)
      false (.throwing connection)
  | again (n : ℕ) : Move (.io n) .asking .isStopped false .rearming
  | finish (n : ℕ) : Move (.io n) .asking .isStopped true .idle
  | rearm (n : ℕ) : Move (.io n) .rearming .asyncAccept () .idle
  | die (n connection : ℕ) : Move (.io n) (.dying connection) .terminate () .idle
  | crash (n connection : ℕ) : Move (.io n) (.throwing connection) .terminate () .idle
  | outside (i : Thread) (c : Command) (r : Reply c) : Outside c → Move i .idle c r .idle

theorem conforms_acceptHandler (n : ℕ) :
    Conforms (Move (.io n)) (Resting .idle) .idle acceptHandler := by
  intro completed
  cases completed with
  | none => exact ⟨_, .error n, rfl⟩
  | some connection =>
    refine ⟨_, .take n connection, fun stopped => ?_⟩
    cases stopped with
    | true => exact ⟨_, .drop n connection, rfl⟩
    | false =>
      refine ⟨_, .pass n connection, fun connected => ?_⟩
      cases connected with
      | false => exact ⟨_, .unnamed n connection, fun _ => ⟨_, .die n connection, rfl⟩⟩
      | true =>
        refine ⟨_, .named n connection, fun noDelay => ?_⟩
        cases noDelay with
        | false => exact ⟨_, .unset n connection, fun _ => ⟨_, .die n connection, rfl⟩⟩
        | true =>
          refine ⟨_, .set n connection, fun _ => ⟨_, .enter n connection, fun returned => ?_⟩⟩
          cases returned with
          | false => exact ⟨_, .thrown n connection, fun _ => ⟨_, .crash n connection, rfl⟩⟩
          | true =>
            refine ⟨_, .leave n connection, fun stoppedMeanwhile => ?_⟩
            cases stoppedMeanwhile with
            | true => exact ⟨_, .finish n, rfl⟩
            | false => exact ⟨_, .again n, fun _ => ⟨_, .rearm n, rfl⟩⟩

theorem conforms_stop (n : ℕ) : Conforms (Move (.control n)) (Resting .idle) .idle stop := by
  intro stopped
  refine ⟨_, .outside _ _ _ trivial, ?_⟩
  cases stopped with
  | true => rfl
  | false =>
    exact fun _ => ⟨_, .outside _ _ _ trivial, fun _ => ⟨_, .outside _ _ _ trivial, rfl⟩⟩

theorem conforms_body (i : Thread) (a : Activity) :
    Conforms (Move i) (Resting .idle) .idle (body i a) := by
  cases i with
  | io n =>
    cases a with
    | handle => exact conforms_acceptHandler n
    | _ => rfl
  | control n =>
    cases a with
    | stop => exact conforms_stop n
    | _ => rfl
  | network =>
    cases a with
    | handle => rfl
    | stop => rfl
    | _ => exact fun _ => ⟨_, .outside _ _ _ trivial, rfl⟩

/-- Every accepted connection has been handed to the delegator, in order. -/
def Served (l : Listener) : Prop := l.delegated = List.range l.accepted

/-- Every accepted connection but the last one. -/
def Owing (l : Listener) (connection : ℕ) : Prop :=
  l.accepted = connection + 1 ∧ l.delegated = List.range connection

def Ended (l : Listener) : Prop :=
  l.isStopped = true ∨ l.failed = true ∨ l.terminated = true

/-- No thread is in a completion handler. -/
inductive Waiting (l : Listener) : Prop where
  | listening : l.pending = 1 → l.ready = [] → l.failed = false → Served l → Waiting l
  | failing : l.pending = 0 → l.ready = [none] → l.failed = false → Served l → Waiting l
  | arrived (connection : ℕ) : l.pending = 0 → l.ready = [some connection] → l.failed = false →
      Owing l connection → Waiting l
  | ended : l.pending = 0 → l.ready = [] → Ended l → (Served l ∨ ∃ c, Owing l c) → Waiting l

/-- The connection that the handler has not handed over yet. -/
def Stage.connection : Stage → Option ℕ
  | .checking connection => some connection
  | .naming connection => some connection
  | .setting connection => some connection
  | .entering connection => some connection
  | .dying connection => some connection
  | _ => none

/-- The connection that the handler has handed over, until the delegator has returned. -/
def Stage.handed : Stage → Option ℕ
  | .delegating connection => some connection
  | .throwing connection => some connection
  | _ => none

theorem Stage.handed_eq_none {x : Stage} {c : ℕ} (h : x.connection = some c) : x.handed = none := by
  cases x <;> first | rfl | cases h

def Stage.inside : Stage → List ℕ
  | .delegating connection => [connection]
  | _ => []

/-- What has led to an exception of the handler. -/
def Stage.Caused (faults : Faults) (l : Listener) : Stage → Prop
  | .dying connection => connection ∈ l.reset ∨ faults.refuses connection = true
  | .throwing connection => faults.throws connection = true
  | _ => True

/-- A thread is in a completion handler, and no operation is outstanding. -/
structure Handling (faults : Faults) (l : Listener) (x : Stage) : Prop where
  pending : l.pending = 0
  ready : l.ready = []
  failed : l.failed = false
  inside : l.inside = x.inside
  owing : ∀ c, x.connection = some c → Owing l c
  served : x.connection = none → Served l
  handed : ∀ c, x.handed = some c → l.accepted = c + 1
  caused : x.Caused faults l

/-- The state of the listener, given where the thread is that has the loop. -/
inductive Phase (faults : Faults) (l : Listener) : Stage → Prop where
  | waiting : l.inside = [] → Waiting l → Phase faults l .idle
  | handling (x : Stage) : x ≠ .idle → Handling faults l x → Phase faults l x

section Steps

variable {faults : Faults} {l l' : Listener} {x y : Stage} {c : Command} {r : Reply c}

theorem Stage.Caused.mono (h : x.Caused faults l) (hreset : ∀ d, d ∈ l.reset → d ∈ l'.reset) :
    x.Caused faults l' := by
  cases x with
  | dying d => exact h.imp_left (hreset d)
  | _ => exact h

theorem Handling.outside (h : Handling faults l x) (hc : Outside c)
    (he : Executed faults l c r l') : Handling faults l' x := by
  cases he with
  | isStopped stopped hs => exact h
  | setStopped =>
    exact ⟨h.pending, h.ready, h.failed, h.inside, h.owing, h.served, h.handed,
      h.caused.mono fun _ => id⟩
  | close =>
    refine ⟨rfl, ?_, h.failed, h.inside, h.owing, h.served, h.handed, h.caused.mono fun _ => id⟩
    simp [h.pending, h.ready]
  | connect pending hp => simp [h.pending] at hp
  | fail pending hp => simp [h.pending] at hp
  | disconnect connection =>
    exact ⟨h.pending, h.ready, h.failed, h.inside, h.owing, h.served, h.handed,
      h.caused.mono fun _ => Finset.mem_insert_of_mem⟩
  | _ => exact hc.elim

theorem Waiting.outside (h : Waiting l) (hc : Outside c) (he : Executed faults l c r l') :
    Waiting l' := by
  cases he with
  | isStopped stopped hs => exact h
  | setStopped =>
    cases h with
    | listening hp hr hf hs => exact .listening hp hr hf hs
    | failing hp hr hf hs => exact .failing hp hr hf hs
    | arrived d hp hr hf hs => exact .arrived d hp hr hf hs
    | ended hp hr _ hs => exact .ended hp hr (.inl rfl) hs
  | close =>
    -- an outstanding operation completes with an error
    cases h with
    | listening hp hr hf hs => exact .failing rfl (by simp [hp, hr]) hf hs
    | failing hp hr hf hs => exact .failing rfl (by simp [hp, hr]) hf hs
    | arrived d hp hr hf hs => exact .arrived d rfl (by simp [hp, hr]) hf hs
    | ended hp hr hend hs => exact .ended rfl (by simp [hp, hr]) hend hs
  | connect pending hpending =>
    cases h with
    | listening hp hr hf hs =>
      exact .arrived l.accepted (by simpa [hp] using hpending.symm) (by simp [hr]) hf ⟨rfl, hs⟩
    | failing hp => simp [hp] at hpending
    | arrived d hp => simp [hp] at hpending
    | ended hp => simp [hp] at hpending
  | fail pending hpending =>
    cases h with
    | listening hp hr hf hs =>
      exact .failing (by simpa [hp] using hpending.symm) (by simp [hr]) hf hs
    | failing hp => simp [hp] at hpending
    | arrived d hp => simp [hp] at hpending
    | ended hp => simp [hp] at hpending
  | disconnect connection =>
    cases h with
    | listening hp hr hf hs => exact .listening hp hr hf hs
    | failing hp hr hf hs => exact .failing hp hr hf hs
    | arrived d hp hr hf hs => exact .arrived d hp hr hf hs
    | ended hp hr hend hs => exact .ended hp hr hend hs
  | _ => exact hc.elim

theorem Phase.outside (h : Phase faults l x) (hc : Outside c) (he : Executed faults l c r l') :
    Phase faults l' x := by
  cases h with
  | waiting hi hw =>
    have hinside : l'.inside = l.inside := by
      cases he <;> first | rfl | exact hc.elim
    exact .waiting (hinside.trans hi) (hw.outside hc he)
  | handling x hx hh => exact .handling x hx (hh.outside hc he)

/-- A step of the handler that owes its connection to the delegator. -/
theorem Handling.owes (h : Handling faults l x) {d : ℕ} (hx : x.connection = some d)
    (hy : y.connection = some d) (hin : x.inside = y.inside) (hc : y.Caused faults l) :
    Handling faults l y := by
  obtain ⟨haccepted, hdelegated⟩ := h.owing d hx
  refine ⟨h.pending, h.ready, h.failed, h.inside.trans hin, fun e he => ?_, fun hn => ?_,
    fun e he => ?_, hc⟩
  · obtain rfl : d = e := Option.some.inj (hy.symm.trans he)
    exact ⟨haccepted, hdelegated⟩
  · rw [hy] at hn
    cases hn
  · rw [Stage.handed_eq_none hy] at he
    cases he

theorem Handling.enter {d : ℕ} (h : Handling faults l (.entering d)) : Handling faults
    { l with delegated := l.delegated ++ [d], inside := l.inside ++ [d] } (.delegating d) := by
  obtain ⟨haccepted, hdelegated⟩ := h.owing d rfl
  refine ⟨h.pending, h.ready, h.failed, ?_, by simp [Stage.connection], fun _ => ?_,
    fun e he => ?_, trivial⟩
  · simp [h.inside, Stage.inside]
  · simp [Served, haccepted, hdelegated, List.range_succ]
  · obtain rfl : d = e := Option.some.inj he
    exact haccepted

/-- The delegator has returned, or has been left by an exception. -/
theorem Handling.leave {d : ℕ} (h : Handling faults l (.delegating d)) (hy : y.connection = none)
    (hin : y.inside = []) (hhanded : ∀ e, y.handed = some e → e = d) (hc : y.Caused faults l) :
    Handling faults { l with inside := l.inside.erase d } y := by
  refine ⟨h.pending, h.ready, h.failed, ?_, fun e he => ?_, fun _ => h.served rfl,
    fun e he => ?_, hc.mono fun _ => id⟩
  · rw [hin]
    simp [h.inside, Stage.inside]
  · rw [hy] at he
    cases he
  · obtain rfl := hhanded e he
    exact h.handed e rfl

theorem Phase.handler (h : Phase faults l x) (hx : x ≠ .idle) : Handling faults l x := by
  cases h with
  | waiting hi hw => exact absurd rfl hx
  | handling _ _ hh => exact hh

/-- Where a completion waits for a thread, no thread is in a handler. -/
theorem Phase.of_ready (h : Phase faults l x) {completed : Option ℕ} {rest : List (Option ℕ)}
    (hready : l.ready = completed :: rest) : x = .idle ∧ l.inside = [] ∧ rest = [] ∧
      l.pending = 0 ∧ l.failed = false ∧
      (completed = none ∧ Served l ∨ ∃ d, completed = some d ∧ Owing l d) := by
  cases h with
  | handling _ hx hh => simp [hh.ready] at hready
  | waiting hi hw =>
    cases hw with
    | listening hp hr hf hs => simp [hr] at hready
    | ended hp hr hend hs => simp [hr] at hready
    | failing hp hr hf hs =>
      obtain ⟨rfl, rfl⟩ : none = completed ∧ [] = rest := by simpa [hr] using hready
      exact ⟨rfl, hi, rfl, hp, hf, .inl ⟨rfl, hs⟩⟩
    | arrived d hp hr hf hs =>
      obtain ⟨rfl, rfl⟩ : some d = completed ∧ [] = rest := by simpa [hr] using hready
      exact ⟨rfl, hi, rfl, hp, hf, .inr ⟨d, rfl, hs⟩⟩

theorem Phase.outstanding (h : Phase faults l x) : l.pending + l.ready.length ≤ 1 := by
  cases h with
  | handling _ _ hh => simp [hh.pending, hh.ready]
  | waiting hi hw =>
    cases hw with
    | listening hp hr => simp [hp, hr]
    | failing hp hr => simp [hp, hr]
    | arrived d hp hr => simp [hp, hr]
    | ended hp hr => simp [hp, hr]

theorem Phase.inside (h : Phase faults l x) : l.inside.length ≤ 1 := by
  cases h with
  | waiting hi hw => simp [hi]
  | handling _ _ hh =>
    rw [hh.inside]
    cases x <;> simp [Stage.inside]

theorem Phase.served (h : Phase faults l x) : Served l ∨ ∃ d, Owing l d := by
  cases h with
  | waiting hi hw =>
    cases hw with
    | listening _ _ _ hs => exact .inl hs
    | failing _ _ _ hs => exact .inl hs
    | arrived d _ _ _ hs => exact .inr ⟨d, hs⟩
    | ended _ _ _ hs => exact hs
  | handling _ _ hh =>
    cases hx : x.connection with
    | none => exact .inl (hh.served hx)
    | some d => exact .inr ⟨d, hh.owing d hx⟩

theorem Phase.of_idle (h : Phase faults l .idle) :
    l.inside = [] ∧ (l.pending + l.ready.length = 1 ∨ Ended l) := by
  cases h with
  | handling _ hx _ => exact absurd rfl hx
  | waiting hi hw =>
    refine ⟨hi, ?_⟩
    cases hw with
    | listening hp hr => simp [hp, hr]
    | failing hp hr => simp [hp, hr]
    | arrived d hp hr => simp [hp, hr]
    | ended hp hr hend => exact .inr hend

/-- A thread that has the loop takes it on, or takes it up where nobody has it. -/
theorem Phase.step {n : ℕ} (h : Phase faults l x) (hm : Move (.io n) x c r y)
    (he : Executed faults l c r l') : Phase faults l' y := by
  cases hm with
  | outside _ _ _ hc => exact h.outside hc he
  | take _ d =>
    cases he with
    | dequeue _ rest hready =>
      obtain ⟨-, hi, rfl, hp, hf, hnone | ⟨e, hd, hs⟩⟩ := h.of_ready hready
      · cases hnone.1
      · obtain rfl : d = e := Option.some.inj hd
        refine .handling _ (by simp)
          ⟨hp, rfl, by simp [hf], hi, fun e he => ?_, ?_, by simp [Stage.handed], trivial⟩
        · obtain rfl : d = e := Option.some.inj he
          exact hs
        · simp [Stage.connection]
  | error _ =>
    cases he with
    | dequeue _ rest hready =>
      obtain ⟨-, hi, rfl, hp, hf, ⟨-, hs⟩ | ⟨e, hd, -⟩⟩ := h.of_ready hready
      · exact .waiting hi (.ended hp rfl (.inr (.inl (by simp))) (.inl hs))
      · cases hd
  | pass _ d =>
    cases he with
    | isStopped _ hs =>
      exact .handling _ (by simp) ((h.handler (by simp)).owes rfl rfl rfl trivial)
  | drop _ d =>
    cases he with
    | isStopped _ hs =>
      have hh := h.handler (by simp)
      exact .waiting hh.inside (.ended hh.pending hh.ready (.inl hs) (.inr ⟨d, hh.owing d rfl⟩))
  | named _ d =>
    cases he with
    | remoteEndpoint _ _ hc =>
      exact .handling _ (by simp) ((h.handler (by simp)).owes rfl rfl rfl trivial)
  | unnamed _ d =>
    cases he with
    | remoteEndpoint _ _ hc =>
      exact .handling _ (by simp) ((h.handler (by simp)).owes rfl rfl rfl (.inl (hc rfl)))
  | set _ d =>
    cases he with
    | setNoDelay _ _ hc =>
      exact .handling _ (by simp) ((h.handler (by simp)).owes rfl rfl rfl trivial)
  | unset _ d =>
    cases he with
    | setNoDelay _ _ hc =>
      exact .handling _ (by simp) ((h.handler (by simp)).owes rfl rfl rfl (.inr (hc rfl)))
  | enter _ d =>
    cases he with
    | enterDelegator _ => exact .handling _ (by simp) (h.handler (by simp)).enter
  | leave _ d =>
    cases he with
    | leaveDelegator _ _ hthrows =>
      exact .handling _ (by simp) ((h.handler (by simp)).leave rfl rfl (by simp [Stage.handed])
        trivial)
  | thrown _ d =>
    cases he with
    | leaveDelegator _ _ hthrows =>
      exact .handling _ (by simp) ((h.handler (by simp)).leave rfl rfl (by simp [Stage.handed])
        (hthrows rfl))
  | again _ =>
    cases he with
    | isStopped _ hs =>
      have hh := h.handler (by simp)
      exact .handling _ (by simp) ⟨hh.pending, hh.ready, hh.failed, hh.inside,
        by simp [Stage.connection], fun _ => hh.served rfl, by simp [Stage.handed], trivial⟩
  | finish _ =>
    cases he with
    | isStopped _ hs =>
      have hh := h.handler (by simp)
      exact .waiting hh.inside (.ended hh.pending hh.ready (.inl hs) (.inl (hh.served rfl)))
  | rearm _ =>
    have hh := h.handler (by simp)
    cases he with
    | aborted hclosed =>
      exact .waiting hh.inside
        (.failing hh.pending (by simp [hh.ready]) hh.failed (hh.served rfl))
    | asyncAccept hopen =>
      exact .waiting hh.inside
        (.listening (by simp [hh.pending]) hh.ready hh.failed (hh.served rfl))
  | die _ d =>
    have hh := h.handler (by simp)
    cases he with
    | terminate =>
      exact .waiting hh.inside
        (.ended hh.pending hh.ready (.inr (.inr rfl)) (.inr ⟨d, hh.owing d rfl⟩))
  | crash _ d =>
    have hh := h.handler (by simp)
    cases he with
    | terminate =>
      exact .waiting hh.inside
        (.ended hh.pending hh.ready (.inr (.inr rfl)) (.inl (hh.served rfl)))

/-- A thread without the loop acts from outside, or waits for a completion. -/
theorem Move.cases {i : Thread} (hm : Move i x c r y) :
    (Outside c ∧ x = .idle ∧ y = .idle) ∨ ∃ n, i = .io n ∧ (x = .idle → c = .dequeue) := by
  cases hm with
  | outside _ _ _ hc => exact .inl ⟨hc, rfl, rfl⟩
  | _ => exact .inr ⟨_, rfl, by simp⟩

/-- Only a call of the delegator changes what has been delegated. -/
theorem delegated_of_move {i : Thread} (hm : Move i x c r y) (he : Executed faults l c r l') :
    l'.delegated = l.delegated ∨
      ∃ d, x = .entering d ∧ y = .delegating d ∧ l'.delegated = l.delegated ++ [d] := by
  cases hm with
  | enter _ d =>
    cases he with
    | enterDelegator _ => exact .inr ⟨d, rfl, rfl, rfl⟩
  | outside _ _ _ hc => cases he <;> first | exact .inl rfl | exact hc.elim
  | _ => cases he <;> exact .inl rfl

theorem flags_of_executed (he : Executed faults l c r l') :
    (l.isStopped = true → l'.isStopped = true) ∧ (l.failed = true → l'.failed = true) := by
  cases he with
  | setStopped => exact ⟨fun _ => rfl, id⟩
  | dequeue completed rest hready => exact ⟨id, fun h => by simp [h]⟩
  | _ => exact ⟨id, id⟩

theorem terminated_of_outside (hc : Outside c) (he : Executed faults l c r l') :
    l'.terminated = l.terminated := by
  cases he <;> first | rfl | exact hc.elim

/-- What a termination says about the last connection: it did not reach the delegator,
because its peer had gone or it refused the option, or the delegator threw. -/
def Broken (faults : Faults) (l : Listener) : Prop :=
  (∃ d, Owing l d ∧ (d ∈ l.reset ∨ faults.refuses d = true)) ∨
    ∃ d, l.accepted = d + 1 ∧ Served l ∧ faults.throws d = true

theorem Phase.broken {n : ℕ} (h : Phase faults l x) (hm : Move (.io n) x c r y)
    (he : Executed faults l c r l') (hrun : l.terminated = false) (ht : l'.terminated = true) :
    Broken faults l' := by
  cases hm with
  | die _ d =>
    have hh := h.handler (by simp)
    cases he with
    | terminate => exact .inl ⟨d, hh.owing d rfl, hh.caused⟩
  | crash _ d =>
    have hh := h.handler (by simp)
    cases he with
    | terminate => exact .inr ⟨d, hh.handed d rfl, hh.served rfl, hh.caused⟩
  | outside _ _ _ hc =>
    rw [terminated_of_outside hc he, hrun] at ht
    cases ht
  | _ => cases he <;> simp [hrun] at ht

end Steps

/-! ## Runs -/

/-- At most one thread has the loop. -/
structure Looping (faults : Faults) (p : AcceptorPool) (stage : Thread → Stage) : Prop where
  staged : Staged (fun i _ => Move i) (Resting .idle) .idle p stage
  holder : ∃ n, (∀ i, i ≠ .io n → stage i = .idle) ∧ Phase faults p.shared (stage (.io n))
  broken : p.shared.terminated = true → Broken faults p.shared

theorem looping_idle (faults : Faults) :
    Looping faults (Pool.idle Listener.listening) (fun _ => .idle) where
  staged := staged_idle _
  holder := ⟨0, fun _ _ => rfl, .waiting rfl (.listening rfl rfl rfl rfl)⟩
  broken h := by cases h

section Runs

variable {faults : Faults} {p p' : AcceptorPool} {stage : Thread → Stage}
  {act : Action Thread Activity}

/-- A thread without the loop takes it up only where nobody has it. -/
theorem Looping.holder_of_move {n : ℕ} {c : Command} {r : Reply c} {l' : Listener}
    (h : Looping faults p stage) (he : Executed faults p.shared c r l')
    (hc : stage (.io n) = .idle → c = .dequeue) :
    (∀ i, i ≠ .io n → stage i = .idle) ∧ Phase faults p.shared (stage (.io n)) := by
  obtain ⟨m, hm, hphase⟩ := h.holder
  by_cases hnm : n = m
  · subst hnm
    exact ⟨hm, hphase⟩
  · have hidle : stage (.io n) = .idle := hm (.io n) (by simpa using hnm)
    obtain rfl := hc hidle
    cases he with
    | dequeue _ rest hready =>
      have hmidle : stage (.io m) = .idle := (hphase.of_ready hready).1
      refine ⟨fun i hi => ?_, by rwa [hidle, ← hmidle]⟩
      by_cases him : i = .io m
      · rw [him, hmidle]
      · exact hm i him

/-- A scheduling step leaves the listener alone, or is a move of one thread. -/
theorem Looping.step_cases (h : Looping faults p stage)
    (hs : (acceptor faults).step p act = some p') :
    (Looping faults p' stage ∧ p'.shared = p.shared) ∨
    ∃ i c r x, Move i (stage i) c r x ∧ Executed faults p.shared c r p'.shared ∧
      Looping faults p' (Function.update stage i x) := by
  rcases h.staged.step (fun i a => conforms_body i a) (fun _ hy => hy) hs with
    ⟨hst, hshared, -⟩ | ⟨i, a, c, k, r, x, -, -, hexec, hm, -, hst⟩
  · exact .inl ⟨⟨hst, hshared ▸ h.holder, hshared ▸ h.broken⟩, hshared⟩
  · obtain ⟨hrun, he⟩ := executed_of_exec hexec
    refine .inr ⟨i, c, r, x, hm, he, ?_⟩
    rcases hm.cases with ⟨hout, hidle, rfl⟩ | ⟨n, rfl, hc⟩
    · obtain ⟨n, hn, hphase⟩ := h.holder
      have hstage : Function.update stage i .idle = stage := by
        rw [← hidle, Function.update_eq_self]
      rw [hstage] at hst ⊢
      refine ⟨hst, ⟨n, hn, hphase.outside hout he⟩, fun ht => ?_⟩
      rw [terminated_of_outside hout he, hrun] at ht
      cases ht
    · obtain ⟨hn, hphase⟩ := h.holder_of_move he hc
      refine ⟨hst, ⟨n, fun j hj => ?_, ?_⟩, hphase.broken hm he hrun⟩
      · rw [Function.update_of_ne hj]
        exact hn j hj
      · rw [Function.update_self]
        exact hphase.step hm he

theorem Looping.step (h : Looping faults p stage)
    (hs : (acceptor faults).step p act = some p') : ∃ stage', Looping faults p' stage' := by
  rcases h.step_cases hs with ⟨h', -⟩ | ⟨i, c, r, x, -, -, h'⟩
  · exact ⟨stage, h'⟩
  · exact ⟨_, h'⟩

theorem looping_run {acts : List (Action Thread Activity)}
    (hr : runs (acceptor faults).step (Pool.idle Listener.listening) acts = some p) :
    ∃ stage, Looping faults p stage :=
  invariant (I := fun q => ∃ stage, Looping faults q stage)
    (fun _ _ _ ⟨_, h⟩ hs => h.step hs) ⟨_, looping_idle faults⟩ hr

/-- A thread in a handler is alone there. -/
theorem Looping.alone (h : Looping faults p stage) {i : Thread} (hi : stage i ≠ .idle) :
    (∀ j, j ≠ i → stage j = .idle) ∧ Phase faults p.shared (stage i) := by
  obtain ⟨n, hn, hphase⟩ := h.holder
  by_cases hin : i = .io n
  · subst hin
    exact ⟨hn, hphase⟩
  · exact absurd (hn i hin) hi

/-- The loop goes round: there is never more than one accept outstanding, nor more than one
call of the delegator at a time, and the connections reach the delegator in the order in
which they are accepted, none but the last of them missing. While nobody is in a handler,
the server listens, unless it has been stopped, an accept has failed, or a handler has
ended the process, for a connection whose peer had gone away, that refused the option, or
with which the delegator threw. -/
theorem accept_loop (faults : Faults) (acts : List (Action Thread Activity)) (p : AcceptorPool)
    (hr : runs (acceptor faults).step (Pool.idle Listener.listening) acts = some p) :
    p.shared.pending + p.shared.ready.length ≤ 1 ∧ p.shared.inside.length ≤ 1 ∧
      (Served p.shared ∨ ∃ d, Owing p.shared d) ∧
      ((∀ n, p.threads (.io n) = none) → p.shared.inside = [] ∧
        (p.shared.pending + p.shared.ready.length = 1 ∨ Ended p.shared)) ∧
      (p.shared.terminated = true → Broken faults p.shared) := by
  obtain ⟨stage, h⟩ := looping_run hr
  obtain ⟨n, -, hphase⟩ := h.holder
  refine ⟨hphase.outstanding, hphase.inside, hphase.served, fun hidle => ?_, h.broken⟩
  have hstage : stage (.io n) = .idle := h.staged.rest_of_idle (hidle n)
  exact (hstage ▸ hphase).of_idle

/-- The store is gone when the delegator adds the second connection. -/
def storeGone : Faults := { throws := fun connection => connection == 1 }

/-- Two connections, one after the other. -/
def secondThrows : List (Action Thread Activity) := List.flatten
  [[.start .network .connect], List.replicate 2 (.advance .network), [.start (.io 0) .handle],
    List.replicate 9 (.advance (.io 0)), [.start .network .connect],
    List.replicate 2 (.advance .network), [.start (.io 1) .handle],
    List.replicate 7 (.advance (.io 1))]

theorem accept_loop_thrown : ∃ p,
    runs (acceptor storeGone).step (Pool.idle Listener.listening) secondThrows = some p ∧
      p.shared.delegated = [0, 1] ∧ Broken storeGone p.shared := by
  have hrun : (runs (acceptor storeGone).step (Pool.idle Listener.listening)
      secondThrows).map (fun p => (p.shared.terminated, p.shared.delegated)) =
        some (true, [0, 1]) := by
    decide +kernel
  obtain ⟨p, hp, hend⟩ := Option.map_eq_some_iff.mp hrun
  have hterminated : p.shared.terminated = true := congrArg Prod.fst hend
  obtain ⟨-, -, -, -, hbroken⟩ := accept_loop _ _ p hp
  exact ⟨p, hp, congrArg Prod.snd hend, hbroken hterminated⟩

/-- The side of the handler after its first test. -/
def Command.passed : Command → Bool
  | .remoteEndpoint _ => true
  | .setNoDelay _ => true
  | .enterDelegator _ => true
  | _ => false

def Stage.passed : Stage → Bool
  | .naming _ => true
  | .setting _ => true
  | .entering _ => true
  | _ => false

/-- Since `delegated` was `base` the listener has been stopped, and only the handler that
had passed its test before can still call the delegator. -/
structure Stopping (base : List ℕ) (bound : ℕ) (p : AcceptorPool) (stage : Thread → Stage) :
    Prop where
  stopped : p.shared.isStopped = true
  delegated : ∃ late, p.shared.delegated = base ++ late ∧ late.length ≤ bound ∧
    ∀ i, (stage i).passed = true → late.length < bound

/-- A handler passes its test only while the listener has not been stopped. -/
theorem passed_of_move {l l' : Listener} {i : Thread} {x y : Stage} {c : Command} {r : Reply c}
    (hm : Move i x c r y) (he : Executed faults l c r l') (hstop : l.isStopped = true)
    (hy : y.passed = true) : x.passed = true := by
  cases hm with
  | pass n d =>
    cases he with
    | isStopped _ hs => simp [hstop] at hs
  | named n d => rfl
  | set n d => rfl
  | _ => cases hy

theorem Stopping.step {base : List ℕ} {bound : ℕ} (h : Looping faults p stage)
    (hstop : Stopping base bound p stage) (hs : (acceptor faults).step p act = some p') :
    ∃ stage', Looping faults p' stage' ∧ Stopping base bound p' stage' := by
  obtain ⟨hstopped, late, hlate, hbound, hpassed⟩ := hstop
  rcases h.step_cases hs with ⟨h', hshared⟩ | ⟨i, c, r, x, hm, he, h'⟩
  · exact ⟨stage, h', by rwa [hshared], late, by rwa [hshared], hbound, hpassed⟩
  · refine ⟨_, h', (flags_of_executed he).1 hstopped, ?_⟩
    rcases delegated_of_move hm he with hsame | ⟨d, hx, rfl, hnew⟩
    · refine ⟨late, hsame.trans hlate, hbound, fun j hj => ?_⟩
      by_cases hji : j = i
      · rw [hji, Function.update_self] at hj
        exact hpassed i (passed_of_move hm he hstopped hj)
      · rw [Function.update_of_ne hji] at hj
        exact hpassed j hj
    · have hlt : late.length < bound := hpassed i (by rw [hx]; rfl)
      refine ⟨late ++ [d], by rw [hnew, hlate, List.append_assoc], ?_, fun j hj => ?_⟩
      · rw [List.length_append, List.length_singleton]
        omega
      · by_cases hji : j = i
        · rw [hji, Function.update_self] at hj
          cases hj
        · rw [Function.update_of_ne hji, (h.alone (by rw [hx]; simp)).1 j hji] at hj
          cases hj

theorem Stopping.run {base : List ℕ} {bound : ℕ} {acts : List (Action Thread Activity)}
    (h : Looping faults p stage) (hstop : Stopping base bound p stage)
    (hr : runs (acceptor faults).step p acts = some p') :
    ∃ late, p'.shared.delegated = base ++ late ∧ late.length ≤ bound := by
  obtain ⟨stage', -, -, late, hlate, hbound, -⟩ :=
    invariant (I := fun q => ∃ stage, Looping faults q stage ∧ Stopping base bound q stage)
      (fun _ _ _ ⟨_, hq, hstop⟩ hs => hstop.step hq hs) ⟨stage, h, hstop⟩ hr
  exact ⟨late, hlate, hbound⟩

/-- After a failed accept the loop is over. -/
theorem Looping.failed_step (h : Looping faults p stage) (hf : p.shared.failed = true)
    (hs : (acceptor faults).step p act = some p') :
    p'.shared.failed = true ∧ p'.shared.delegated = p.shared.delegated := by
  rcases h.step_cases hs with ⟨-, hshared⟩ | ⟨i, c, r, x, hm, he, -⟩
  · exact ⟨by rwa [hshared], by rw [hshared]⟩
  · refine ⟨(flags_of_executed he).2 hf, ?_⟩
    rcases delegated_of_move hm he with hsame | ⟨d, hx, -, -⟩
    · exact hsame
    · have hne : stage i ≠ .idle := by
        rw [hx]
        simp
      have hfailed := ((h.alone hne).2.handler hne).failed
      rw [hf] at hfailed
      cases hfailed

instance (c : Command) : Inhabited (Reply c) := by
  cases c <;> first | exact ⟨()⟩ | exact ⟨false⟩ | exact ⟨none⟩

/-- A thread that has passed the test is about to go on to the delegator. -/
theorem Looping.next_of_passed (h : Looping faults p stage) {i : Thread}
    (hi : (stage i).passed = true) :
    ∃ n, i = .io n ∧ (p.next (.io n)).any Command.passed = true := by
  have hne : stage i ≠ .idle := by
    intro hidle
    rw [hidle] at hi
    cases hi
  obtain ⟨a, c, k, ht, hc⟩ := h.staged.next_command hne
  obtain ⟨y, hm, -⟩ := hc default
  have hpassed : c.passed = true := by
    generalize stage i = x at hi hm
    cases hm <;> first | rfl | cases hi
  rcases hm.cases with ⟨-, hidle, -⟩ | ⟨n, rfl, -⟩
  · exact absurd hidle hne
  · exact ⟨n, rfl, by simpa [Pool.next, ht, Program.next] using hpassed⟩

/-- However the threads go on after `Stop` has set its flag, the delegator gets at most the
connection whose handler had passed its test before, and none if there is no such handler.
After a failed accept it gets none at all. -/
theorem accept_stops (faults : Faults) (acts later : List (Action Thread Activity))
    (p q : AcceptorPool)
    (hp : runs (acceptor faults).step (Pool.idle Listener.listening) acts = some p)
    (hq : runs (acceptor faults).step p later = some q) :
    (p.shared.isStopped = true →
      ∃ late, q.shared.delegated = p.shared.delegated ++ late ∧ late.length ≤ 1 ∧
        ((∀ n, (p.next (.io n)).any Command.passed = false) → late = [])) ∧
    (p.shared.failed = true → q.shared.delegated = p.shared.delegated) := by
  obtain ⟨stage, h⟩ := looping_run hp
  refine ⟨fun hstopped => ?_, fun hf => ?_⟩
  · by_cases hpassed : ∃ i, (stage i).passed = true
    · have hstop : Stopping p.shared.delegated 1 p stage :=
        ⟨hstopped, [], by simp, by simp, by simp⟩
      obtain ⟨late, hlate, hbound⟩ := hstop.run h hq
      refine ⟨late, hlate, hbound, fun hnone => ?_⟩
      obtain ⟨i, hi⟩ := hpassed
      obtain ⟨n, -, hn⟩ := h.next_of_passed hi
      rw [hnone n] at hn
      cases hn
    · have hstop : Stopping p.shared.delegated 0 p stage :=
        ⟨hstopped, [], by simp, by simp, fun i hi => absurd ⟨i, hi⟩ hpassed⟩
      obtain ⟨late, hlate, hbound⟩ := hstop.run h hq
      exact ⟨late, hlate, by omega, fun _ => List.length_eq_zero_iff.mp (by omega)⟩
  · have hend := invariant (I := fun s => (∃ stage, Looping faults s stage) ∧
        s.shared.failed = true ∧ s.shared.delegated = p.shared.delegated)
      (fun s act s' hI hs => by
        obtain ⟨⟨stage, hst⟩, hfail, hsame⟩ := hI
        obtain ⟨hfail', hsame'⟩ := hst.failed_step hfail hs
        exact ⟨hst.step hs, hfail', hsame'.trans hsame⟩) ⟨⟨stage, h⟩, hf, rfl⟩ hq
    exact hend.2.2

/-- A handler has passed its test when `Stop` is called, and goes on afterwards. -/
def stopMeanwhile : List (Action Thread Activity) := List.flatten
  [[.start .network .connect], List.replicate 2 (.advance .network), [.start (.io 0) .handle],
    List.replicate 2 (.advance (.io 0)), [.start (.control 0) .stop],
    List.replicate 4 (.advance (.control 0))]

theorem accept_stops_meanwhile : ∃ p q,
    runs (acceptor {}).step (Pool.idle Listener.listening) stopMeanwhile = some p ∧
      runs (acceptor {}).step p (List.replicate 6 (.advance (.io 0))) = some q ∧
      q.shared.delegated = [0] ∧
      ∃ late, q.shared.delegated = p.shared.delegated ++ late ∧ late.length ≤ 1 := by
  have hrun : (runs (acceptor {}).step (Pool.idle Listener.listening)
      stopMeanwhile).map (fun p => (p.shared.isStopped, (runs (acceptor {}).step p
        (List.replicate 6 (.advance (.io 0)))).map fun q => q.shared.delegated)) =
          some (true, some [0]) := by
    decide +kernel
  obtain ⟨p, hp, hend⟩ := Option.map_eq_some_iff.mp hrun
  obtain ⟨q, hq, hdelegated⟩ := Option.map_eq_some_iff.mp (congrArg Prod.snd hend)
  obtain ⟨late, hlate, hone, -⟩ :=
    (accept_stops _ _ _ p q hp hq).1 (congrArg Prod.fst hend)
  exact ⟨p, q, hp, hq, hdelegated, late, hlate, hone⟩

end Runs

end IsolationServer.Acceptance
