import IsolationServer.CommandPrograms
import IsolationServer.Keys

/-!
# The write queue of a client socket

`PostWrite` pushes a buffer and calls `WriteAsync`, which starts a write of the
front of the queue. The completion handler pops the front and calls
`WriteAsync` again if the queue is not empty, so a buffer stays at the front
while its write is outstanding. The two sides run on different threads and
share the queue by four short critical sections.

`PostWrite` does not test whether a write is outstanding. As long as it is
called only when none is, and no completion handler is running, there is one
write at a time and every buffer is written once.
-/
namespace IsolationServer.WriteQueue
open CommandPrograms Runs

/-- A buffer made by `std::make_shared`, with the number that tells it from all
other buffers of the socket. -/
structure Buffer where
  serial : ℕ
  data : Bytes
  deriving DecidableEq

/-- `queue` is `_writeBufferQueue`; `outstanding` are the buffers of the writes
that have been started and have not completed, and `started` lists every buffer
passed to `async_write`, oldest first. -/
structure Writer where
  queue : List Buffer := []
  outstanding : List Buffer := []
  started : List Buffer := []
  made : ℕ := 0

/-- The critical sections, with the two things that Asio and the allocator do. -/
inductive Command where
  | makeShared (data : Bytes)
  | pushWriteBuffer (buffer : Buffer)
  | writeAsync
  | popFrontWriteBuffer
  | isWriteBufferQueueEmpty
  | complete (buffer : Buffer)
  deriving DecidableEq

abbrev Reply : Command → Type
  | .makeShared _ => Buffer
  | .isWriteBufferQueueEmpty => Bool
  | _ => Unit

instance (c : Command) : Inhabited (Reply c) := by
  cases c <;> first | exact ⟨()⟩ | exact ⟨false⟩ | exact ⟨⟨0, []⟩⟩

def exec : (c : Command) → Writer → Option (Reply c × Writer)
  | .makeShared data, w => some (⟨w.made, data⟩, { w with made := w.made + 1 })
  | .pushWriteBuffer buffer, w => some ((), { w with queue := w.queue ++ [buffer] })
  | .writeAsync, w =>
    match w.queue with
    | [] => some ((), w)
    | front :: _ => some ((), { w with
        outstanding := w.outstanding ++ [front], started := w.started ++ [front] })
  | .popFrontWriteBuffer, w => some ((), { w with queue := w.queue.tail })
  | .isWriteBufferQueueEmpty, w => some (w.queue.isEmpty, w)
  | .complete buffer, w =>
    if buffer ∈ w.outstanding then
      some ((), { w with outstanding := w.outstanding.erase buffer })
    else none

/-- A write of the front of the queue is started. -/
def startFront (w : Writer) : Writer :=
  match w.queue with
  | [] => w
  | front :: _ => { w with
      outstanding := w.outstanding ++ [front], started := w.started ++ [front] }

theorem exec_writeAsync (w : Writer) : exec .writeAsync w = some ((), startFront w) := by
  unfold startFront
  simp only [exec]
  cases w.queue <;> rfl

/-- Everything that a command can reply and do. -/
inductive Executed (w : Writer) : (c : Command) → Reply c → Writer → Prop where
  | makeShared (data : Bytes) :
      Executed w (.makeShared data) ⟨w.made, data⟩ { w with made := w.made + 1 }
  | pushWriteBuffer (buffer : Buffer) :
      Executed w (.pushWriteBuffer buffer) () { w with queue := w.queue ++ [buffer] }
  | writeAsync : Executed w .writeAsync () (startFront w)
  | popFrontWriteBuffer : Executed w .popFrontWriteBuffer () { w with queue := w.queue.tail }
  | isWriteBufferQueueEmpty : Executed w .isWriteBufferQueueEmpty w.queue.isEmpty w
  | complete (buffer : Buffer) (h : buffer ∈ w.outstanding) : Executed w (.complete buffer) ()
      { w with outstanding := w.outstanding.erase buffer }

theorem executed_of_exec {c : Command} {r : Reply c} {w w' : Writer}
    (h : exec c w = some (r, w')) : Executed w c r w' := by
  cases c with
  | writeAsync =>
    rw [exec_writeAsync] at h
    obtain ⟨rfl, rfl⟩ := Prod.mk.inj (Option.some.inj h)
    exact .writeAsync
  | complete buffer =>
    simp only [exec] at h
    split at h
    · rename_i hmem
      obtain ⟨rfl, rfl⟩ := Prod.mk.inj (Option.some.inj h)
      exact .complete buffer hmem
    · cases h
  | _ =>
    obtain ⟨rfl, rfl⟩ := Prod.mk.inj (Option.some.inj h)
    constructor

abbrev WriteProgram := Program Command Reply Unit

abbrev call (c : Command) : Program Command Reply (Reply c) := Program.call c

def postWrite (data : Bytes) : WriteProgram := do
  let buffer ← call (.makeShared data)
  call (.pushWriteBuffer buffer)
  call .writeAsync

/-- The completion handler of a write that succeeded. -/
def writeCompleted (buffer : Buffer) : WriteProgram := do
  call (.complete buffer)
  call .popFrontWriteBuffer
  let empty ← call .isWriteBufferQueueEmpty
  if empty = false then call .writeAsync else return

/-- The read handler, which posts, and the strand, which runs the completions.
Each of them does one thing at a time. -/
inductive Side where
  | reader
  | strand
  deriving DecidableEq

inductive Activity where
  | post (data : Bytes)
  | completed (buffer : Buffer)
  deriving DecidableEq

def body : Side → Activity → WriteProgram
  | .reader, .post data => postWrite data
  | .strand, .completed buffer => writeCompleted buffer
  | _, _ => return

/-- The completions of outstanding writes arrive in any order. -/
def allows (w : Writer) : Side → Activity → Bool
  | .reader, .post _ => true
  | .strand, .completed buffer => decide (buffer ∈ w.outstanding)
  | _, _ => false

abbrev WriterPool := Pool Side Activity Command Reply Writer

def writer : System Side Activity Command Reply Writer where
  exec := exec
  body := body
  allows := allows

/-! ## Where the two sides are -/

inductive Stage where
  | idle
  | pushing (buffer : Buffer)
  | starting (buffer : Buffer)
  | popping
  | testing
  | restarting

inductive Move : Side → Activity → Stage → (c : Command) → Reply c → Stage → Prop where
  | make (data : Bytes) (b : Buffer) :
      Move .reader (.post data) .idle (.makeShared data) b (.pushing b)
  | push (data : Bytes) (b : Buffer) :
      Move .reader (.post data) (.pushing b) (.pushWriteBuffer b) () (.starting b)
  | start (data : Bytes) (b : Buffer) : Move .reader (.post data) (.starting b) .writeAsync () .idle
  | complete (b : Buffer) : Move .strand (.completed b) .idle (.complete b) () .popping
  | pop (b : Buffer) : Move .strand (.completed b) .popping .popFrontWriteBuffer () .testing
  | stop (b : Buffer) : Move .strand (.completed b) .testing .isWriteBufferQueueEmpty true .idle
  | more (b : Buffer) :
      Move .strand (.completed b) .testing .isWriteBufferQueueEmpty false .restarting
  | restart (b : Buffer) : Move .strand (.completed b) .restarting .writeAsync () .idle

theorem body_conforms (i : Side) (a : Activity) :
    Conforms (Move i a) (fun _ y => y = .idle) .idle (body i a) := by
  cases i with
  | reader =>
    cases a with
    | post data =>
      intro b
      exact ⟨_, .make data b, fun _ => ⟨_, .push data b, fun _ => ⟨_, .start data b, rfl⟩⟩⟩
    | completed b => rfl
  | strand =>
    cases a with
    | post data => rfl
    | completed b =>
      intro _
      refine ⟨_, .complete b, fun _ => ⟨_, .pop b, fun empty => ?_⟩⟩
      cases empty with
      | true => exact ⟨_, .stop b, rfl⟩
      | false => exact ⟨_, .more b, fun _ => ⟨_, .restart b, rfl⟩⟩

/-! ## One write at a time -/

/-- The queue and the outstanding writes while no buffer waits to be started,
given where the strand is: at most one buffer is queued, and it is the one
being written. -/
def Settled (w : Writer) : Stage → Prop
  | .idle => w.queue = w.outstanding ∧ w.queue.length ≤ 1
  | .popping => w.queue.length = 1 ∧ w.outstanding = []
  | .testing => w.queue = [] ∧ w.outstanding = []
  | _ => False

def Shape (w : Writer) : Stage → Stage → Prop
  | .starting b, y => y = .idle ∧ w.queue = [b] ∧ w.outstanding = []
  | _, y => Settled w y

/-- The buffer that the reader has made and not started. -/
def Stage.pending : Stage → Option Buffer
  | .pushing b => some b
  | .starting b => some b
  | _ => none

structure OneWrite (w : Writer) (x y : Stage) : Prop where
  shape : Shape w x y
  nodup : w.started.Nodup
  old : ∀ b ∈ w.started, b.serial < w.made
  fresh : ∀ b, x.pending = some b → b ∉ w.started ∧ b.serial < w.made

theorem Settled.outstanding {w : Writer} {y : Stage} (h : Settled w y) :
    w.outstanding.length ≤ 1 := by
  cases y with
  | idle => exact h.1 ▸ h.2
  | popping => simp [h.2]
  | testing => simp [h.2]
  | _ => exact h.elim

theorem Shape.outstanding {w : Writer} {x y : Stage} (h : Shape w x y) :
    w.outstanding.length ≤ 1 := by
  cases x with
  | starting b => simp [h.2.2]
  | _ => exact Settled.outstanding h

def Command.isPush : Command → Bool
  | .pushWriteBuffer _ => true
  | _ => false

/-- The side condition on a run: `PostWrite` pushes its buffer only when no write
is outstanding and the strand has nothing left to do. -/
def PostWhenIdle (p : WriterPool) : Action Side Activity → Prop
  | .start _ _ => True
  | .advance i => (p.next i).any Command.isPush = true →
      p.shared.outstanding = [] ∧ p.next .strand = none

instance (p : WriterPool) : ∀ act, Decidable (PostWhenIdle p act)
  | .start _ _ => .isTrue trivial
  | .advance i => inferInstanceAs (Decidable ((p.next i).any Command.isPush = true →
      p.shared.outstanding = [] ∧ p.next .strand = none))

section Steps

variable {w w' : Writer} {x x' y y' : Stage} {a : Activity} {c : Command} {r : Reply c}

/-- One step of `PostWrite`. -/
theorem OneWrite.reader (h : OneWrite w x y) (hm : Move .reader a x c r x')
    (he : exec c w = some (r, w'))
    (hidle : ∀ b, c = .pushWriteBuffer b → w.outstanding = [] ∧ y = .idle) :
    OneWrite w' x' y := by
  obtain ⟨hshape, hnodup, hold, hfresh⟩ := h
  cases hm with
  | make data b =>
    simp only [exec, Option.some.injEq, Prod.mk.injEq] at he
    obtain ⟨rfl, rfl⟩ := he
    refine ⟨?_, hnodup, fun b hb => Nat.lt_succ_of_lt (hold b hb), fun b hb => ?_⟩
    · cases y <;> exact hshape
    · obtain rfl : ⟨w.made, data⟩ = b := by simpa [Stage.pending] using hb
      exact ⟨fun hmem => absurd (hold _ hmem) (lt_irrefl _), Nat.lt_succ_self _⟩
  | push data b =>
    obtain ⟨hout, rfl⟩ := hidle b rfl
    cases executed_of_exec he
    have hqueue : w.queue = [] := hshape.1.trans hout
    exact ⟨⟨rfl, by simp [hqueue], hout⟩, hnodup, hold, hfresh⟩
  | start data b =>
    obtain ⟨rfl, hqueue, hout⟩ := hshape
    simp only [exec, hqueue, Option.some.injEq, Prod.mk.injEq, true_and] at he
    subst he
    obtain ⟨hnew, hserial⟩ := hfresh b rfl
    refine ⟨⟨?_, ?_⟩, ?_, ?_, ?_⟩
    · simp [hout]
    · simp
    · rw [List.nodup_append_comm]
      exact List.nodup_cons.mpr ⟨hnew, hnodup⟩
    · intro c hc
      rcases List.mem_append.mp hc with hc | hc
      · exact hold c hc
      · rw [List.mem_singleton.mp hc]
        exact hserial
    · simp [Stage.pending]

/-- While the strand is busy, the reader has pushed nothing. -/
theorem Shape.settled (h : Shape w x y) (hy : y ≠ .idle) : Settled w y ∧ ∀ b, x ≠ .starting b := by
  cases x with
  | starting b => exact absurd h.1 hy
  | _ => exact ⟨h, fun b hb => by cases hb⟩

theorem Settled.shape (h : Settled w y) (hx : ∀ b, x ≠ .starting b) : Shape w x y := by
  cases x with
  | starting b => exact absurd rfl (hx b)
  | _ => exact h

/-- One step of a completion handler. -/
theorem OneWrite.strand (h : OneWrite w x y) (hm : Move .strand a y c r y')
    (he : exec c w = some (r, w')) : OneWrite w' x y' := by
  obtain ⟨hshape, hnodup, hold, hfresh⟩ := h
  cases hm with
  | complete b =>
    cases executed_of_exec he with
    | complete _ hb =>
      refine ⟨?_, hnodup, hold, hfresh⟩
      have hx : ∀ b', x ≠ .starting b' := by
        rintro b' rfl
        simp [hshape.2.2] at hb
      have hidle : Settled w .idle := by
        cases x with
        | starting b' => exact absurd rfl (hx b')
        | _ => exact hshape
      obtain ⟨d, hd⟩ : ∃ d, w.outstanding = [d] := by
        rw [← List.length_eq_one_iff]
        have hpos := List.length_pos_of_mem hb
        have hle := hidle.outstanding
        omega
      obtain rfl : b = d := by simpa [hd] using hb
      refine Settled.shape ⟨?_, ?_⟩ hx
      · simp [hidle.1, hd]
      · simp [hd]
  | pop b =>
    obtain ⟨hsettled, hx⟩ := hshape.settled (by simp)
    cases executed_of_exec he
    refine ⟨Settled.shape ⟨?_, hsettled.2⟩ hx, hnodup, hold, hfresh⟩
    obtain ⟨d, hd⟩ := List.length_eq_one_iff.mp hsettled.1
    simp [hd]
  | stop b =>
    obtain ⟨hsettled, hx⟩ := hshape.settled (by simp)
    simp only [exec, Option.some.injEq, Prod.mk.injEq] at he
    obtain ⟨-, rfl⟩ := he
    refine ⟨Settled.shape ⟨?_, ?_⟩ hx, hnodup, hold, hfresh⟩
    · rw [hsettled.1, hsettled.2]
    · simp [hsettled.1]
  | more b =>
    obtain ⟨hsettled, -⟩ := hshape.settled (by simp)
    simp [exec, hsettled.1] at he
  | restart b =>
    obtain ⟨hsettled, -⟩ := hshape.settled (by simp)
    exact hsettled.elim

end Steps

section Runs

variable {p p' : WriterPool} {act : Action Side Activity}

/-- The two sides are at stages that fit their programs, and there is at most
one write. -/
def Serialised (p : WriterPool) : Prop :=
  ∃ stage, Staged Move (Resting .idle) .idle p stage ∧
    OneWrite p.shared (stage .reader) (stage .strand)

theorem serialised_idle : Serialised (Pool.idle {}) := by
  refine ⟨fun _ => .idle, staged_idle _, ⟨⟨rfl, by simp [Pool.idle]⟩, ?_, ?_, ?_⟩⟩
  · exact List.nodup_nil
  · simp [Pool.idle]
  · simp [Stage.pending]

theorem Serialised.step (h : Serialised p) (hok : PostWhenIdle p act)
    (hs : writer.step p act = some p') : Serialised p' := by
  obtain ⟨stage, hst, hone⟩ := h
  rcases hst.step body_conforms (fun _ h => h) hs with ⟨hst', hsh, -⟩ |
    ⟨i, a, c, k, r, x, rfl, hth, he, hm, -, hst'⟩
  · exact ⟨stage, hst', hsh ▸ hone⟩
  · refine ⟨_, hst', ?_⟩
    cases i with
    | reader =>
      rw [Function.update_self, Function.update_of_ne (by decide)]
      refine hone.reader hm he fun b hb => ?_
      have hpush : (p.next .reader).any Command.isPush = true := by
        simp [Pool.next, hth, Program.next, hb, Command.isPush]
      obtain ⟨hout, hstrand⟩ := hok hpush
      exact ⟨hout, hst.rest_of_next_none hstrand⟩
    | strand =>
      rw [Function.update_self, Function.update_of_ne (by decide)]
      exact hone.strand hm he

/-- Responses are sent at most once: in every run in which `PostWrite` pushes
only while no write is outstanding and no completion handler is at work, at most
one write is outstanding and no buffer is passed to `async_write` twice. -/
theorem writes_once (acts : List (Action Side Activity)) (p : WriterPool)
    (hr : runs writer.step (Pool.idle {}) acts = some p)
    (hok : Along writer.step PostWhenIdle (Pool.idle {}) acts) :
    p.shared.outstanding.length ≤ 1 ∧ p.shared.started.Nodup := by
  obtain ⟨stage, -, hone⟩ := invariant_along (I := Serialised)
    (fun _ _ _ h hok hs => h.step hok hs) serialised_idle hok hr
  exact ⟨hone.shape.outstanding, hone.nodup⟩

/-- `PostWrite` from its call to its return. -/
def posted (data : Bytes) : List (Action Side Activity) :=
  .start .reader (.post data) :: List.replicate 4 (.advance .reader)

/-- A response is posted, its write completes, and then the next one is posted. -/
def postAfterCompletion : List (Action Side Activity) := List.flatten
  [posted [1], [.start .strand (.completed ⟨0, [1]⟩)], List.replicate 4 (.advance .strand),
    posted [2]]

theorem writes_once_after_completion : ∃ p,
    runs writer.step (Pool.idle {}) postAfterCompletion = some p ∧
    p.shared.started = [⟨0, [1]⟩, ⟨1, [2]⟩] ∧ p.shared.started.Nodup := by
  have hrun : (runs writer.step (Pool.idle {}) postAfterCompletion).map
      (fun p => p.shared.started) = some [⟨0, [1]⟩, ⟨1, [2]⟩] := by decide +kernel
  obtain ⟨p, hp, hstarted⟩ := Option.map_eq_some_iff.mp hrun
  have hok : Along writer.step PostWhenIdle (Pool.idle {}) postAfterCompletion := by
    decide +kernel
  exact ⟨p, hp, hstarted, (writes_once _ p hp hok).2⟩

/-- A second response that is posted before the first write has completed starts
the first buffer again. -/
theorem pipelined_posts_write_twice :
    ¬ ∀ (acts : List (Action Side Activity)) (p : WriterPool),
      runs writer.step (Pool.idle {}) acts = some p →
      p.shared.outstanding.length ≤ 1 ∧ p.shared.started.Nodup := by
  intro hall
  have hrun : (runs writer.step (Pool.idle {}) (posted [1] ++ posted [2])).map
      (fun p => (p.shared.outstanding, p.shared.started)) =
      some ([⟨0, [1]⟩, ⟨0, [1]⟩], [⟨0, [1]⟩, ⟨0, [1]⟩]) := by decide +kernel
  obtain ⟨p, hp, hobs⟩ := Option.map_eq_some_iff.mp hrun
  simp only [Prod.mk.injEq] at hobs
  have hone := (hall _ p hp).1
  rw [hobs.1] at hone
  simp at hone

end Runs

end IsolationServer.WriteQueue
