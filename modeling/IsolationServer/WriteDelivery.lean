import IsolationServer.WriteQueue

/-!
# No posted response is lost

`PostWrite` and the completion handlers both start a write of the front of the
queue, and every completion pops the front, whichever buffer was written. With
one thread there are always at least as many outstanding writes as queued
buffers and the front has been started, so every buffer is written in order.
With several threads a completion can pop a buffer between the push and the
start of `PostWrite`.
-/
namespace IsolationServer.WriteQueue
open CommandPrograms Runs

/-! ## One thread -/

/-- `PostWrite` and the completion handler. -/
def work : Activity → WriteProgram
  | .post data => postWrite data
  | .completed buffer => writeCompleted buffer

/-- One of them, run to completion. -/
def deliver (w : Writer) (a : Activity) : Option Writer :=
  (Program.run exec (work a) w).map Prod.snd

/-- The data posted by an event. -/
def Posted : Activity → Option Bytes
  | .post data => some data
  | .completed _ => none

/-- The buffers made by a sequence of events, in the order of posting. -/
def postedBuffers (events : List Activity) : List Buffer :=
  (events.filterMap Posted).mapIdx fun i data => ⟨i, data⟩

section Events

variable {w w' : Writer} {events : List Activity}

theorem deliver_post (w : Writer) (data : Bytes) : deliver w (.post data) =
    some (startFront { w with queue := w.queue ++ [⟨w.made, data⟩], made := w.made + 1 }) := by
  have hlast : ∀ v, Program.run exec (call .writeAsync) v = some ((), startFront v) := by
    intro v
    rw [call, Program.call, Program.run_issue, exec_writeAsync, Option.bind_some, Program.run_done]
  simp only [deliver, work, postWrite, Program.call_bind, Program.run_issue, exec, Option.bind_some,
    hlast, Option.map_some]

/-- On an empty queue `WriteAsync` does nothing, so the test before it does not
matter. -/
theorem deliver_completed (w : Writer) (b : Buffer) : deliver w (.completed b) =
    if b ∈ w.outstanding then
      some (startFront { w with outstanding := w.outstanding.erase b, queue := w.queue.tail })
    else none := by
  by_cases hb : b ∈ w.outstanding
  · cases hq : w.queue.tail with
    | nil =>
      simp [deliver, work, writeCompleted, exec, hb, hq, startFront]
    | cons front rest =>
      simp [deliver, work, writeCompleted, exec, hb, hq, startFront, call, Program.call]
  · simp [deliver, work, writeCompleted, exec, hb]

theorem postedBuffers_post (events : List Activity) (data : Bytes) :
    postedBuffers (events ++ [.post data]) =
      postedBuffers events ++ [⟨(events.filterMap Posted).length, data⟩] := by
  simp [postedBuffers, Posted, List.mapIdx_concat]

theorem postedBuffers_completed (events : List Activity) (b : Buffer) :
    postedBuffers (events ++ [.completed b]) = postedBuffers events := by
  simp [postedBuffers, Posted, List.filterMap_cons]

/-- The queue is what has been posted and not popped, and what has been popped
has been started, all in the order of posting. -/
structure Queued (posted : List Buffer) (w : Writer) : Prop where
  made : w.made = posted.length
  suffix : ∃ popped, posted = popped ++ w.queue ∧ ∀ b ∈ popped, b ∈ w.started
  increasing : w.queue.Pairwise fun a b => a.serial < b.serial
  recent : ∀ b ∈ w.queue, b.serial < w.made
  sorted : w.started.Pairwise fun a b => a.serial ≤ b.serial
  before : ∀ b ∈ w.started, b.serial < w.made ∧ ∀ c ∈ w.queue, b.serial ≤ c.serial

/-- Between events the front has been started, and no fewer writes are
outstanding than buffers queued. -/
structure InOrder (posted : List Buffer) (w : Writer) : Prop extends Queued posted w where
  front : ∀ b ∈ w.queue.head?, b ∈ w.started
  enough : w.queue.length ≤ w.outstanding.length

variable {posted : List Buffer}

theorem inOrder_initial : InOrder [] {} where
  made := rfl
  suffix := ⟨[], rfl, by simp⟩
  increasing := List.Pairwise.nil
  recent := by simp
  sorted := List.Pairwise.nil
  before := by simp
  front := by simp
  enough := le_rfl

theorem Queued.start (h : Queued posted w) (hlen : w.queue.length ≤ w.outstanding.length + 1) :
    InOrder posted (startFront w) := by
  cases hq : w.queue with
  | nil =>
    have hstart : startFront w = w := by simp [startFront, hq]
    rw [hstart]
    exact ⟨h, by simp [hq], by simp [hq]⟩
  | cons front rest =>
    have hstart : startFront w = { w with
        outstanding := w.outstanding ++ [front], started := w.started ++ [front] } := by
      simp [startFront, hq]
    have hmem : front ∈ w.queue := by simp [hq]
    have hfirst : ∀ c ∈ w.queue, front.serial ≤ c.serial := by
      intro c hc
      have hinc := h.increasing
      rw [hq] at hinc hc
      rcases List.mem_cons.mp hc with rfl | hc
      · exact le_rfl
      · exact (List.rel_of_pairwise_cons hinc hc).le
    obtain ⟨popped, hposted, hpopped⟩ := h.suffix
    rw [hstart]
    refine ⟨⟨h.made, ⟨popped, hposted, ?_⟩, h.increasing, h.recent, ?_, ?_⟩, ?_, ?_⟩
    · exact fun b hb => List.mem_append_left _ (hpopped b hb)
    · rw [List.pairwise_append]
      refine ⟨h.sorted, List.pairwise_singleton _ _, fun b hb c hc => ?_⟩
      rw [List.mem_singleton.mp hc]
      exact (h.before b hb).2 front hmem
    · intro b hb
      rcases List.mem_append.mp hb with hb | hb
      · exact h.before b hb
      · rw [List.mem_singleton.mp hb]
        exact ⟨h.recent front hmem, hfirst⟩
    · intro b hb
      obtain rfl : front = b := by simpa [hq] using hb
      simp
    · rw [List.length_append, List.length_singleton]
      exact hlen

theorem InOrder.push (h : InOrder posted w) (data : Bytes) :
    Queued (posted ++ [⟨posted.length, data⟩])
      { w with queue := w.queue ++ [⟨w.made, data⟩], made := w.made + 1 } := by
  obtain ⟨popped, hposted, hpopped⟩ := h.suffix
  refine ⟨by simp [h.made], ⟨popped, ?_, hpopped⟩, ?_, ?_, h.sorted, ?_⟩
  · rw [h.made, hposted, List.append_assoc]
  · rw [List.pairwise_append]
    refine ⟨h.increasing, List.pairwise_singleton _ _, fun b hb c hc => ?_⟩
    rw [List.mem_singleton.mp hc]
    exact h.recent b hb
  · intro b hb
    rcases List.mem_append.mp hb with hb | hb
    · exact Nat.lt_succ_of_lt (h.recent b hb)
    · rw [List.mem_singleton.mp hb]
      exact Nat.lt_succ_self _
  · intro b hb
    obtain ⟨hold, hle⟩ := h.before b hb
    refine ⟨Nat.lt_succ_of_lt hold, fun c hc => ?_⟩
    rcases List.mem_append.mp hc with hc | hc
    · exact hle c hc
    · rw [List.mem_singleton.mp hc]
      exact hold.le

/-- The buffer that is popped has been started. -/
theorem InOrder.pop (h : InOrder posted w) (b : Buffer) :
    Queued posted { w with outstanding := w.outstanding.erase b, queue := w.queue.tail } := by
  obtain ⟨popped, hposted, hpopped⟩ := h.suffix
  refine ⟨h.made, ?_, ?_, fun c hc => h.recent c (List.mem_of_mem_tail hc), h.sorted, ?_⟩
  · cases hq : w.queue with
    | nil => exact ⟨popped, by simp [hposted, hq], hpopped⟩
    | cons front rest =>
      refine ⟨popped ++ [front], by simp [hposted, hq], fun c hc => ?_⟩
      rcases List.mem_append.mp hc with hc | hc
      · exact hpopped c hc
      · rw [List.mem_singleton.mp hc]
        exact h.front front (by simp [hq])
  · exact h.increasing.sublist (List.tail_sublist _)
  · exact fun c hc => ⟨(h.before c hc).1, fun d hd => (h.before c hc).2 d (List.mem_of_mem_tail hd)⟩

/-- One event, run to completion. -/
theorem InOrder.step {a : Activity} (h : InOrder (postedBuffers events) w)
    (hs : deliver w a = some w') : InOrder (postedBuffers (events ++ [a])) w' := by
  have hlen := h.enough
  cases a with
  | post data =>
    rw [deliver_post] at hs
    obtain rfl := Option.some.inj hs
    have hpush := h.push data
    rw [postedBuffers_post]
    have hcount : (postedBuffers events).length = (events.filterMap Posted).length := by
      simp [postedBuffers]
    rw [hcount] at hpush
    refine hpush.start ?_
    show (w.queue ++ [_]).length ≤ w.outstanding.length + 1
    rw [List.length_append, List.length_singleton]
    omega
  | completed b =>
    rw [deliver_completed] at hs
    split at hs
    · rename_i hb
      obtain rfl := Option.some.inj hs
      rw [postedBuffers_completed]
      refine (h.pop b).start ?_
      rw [List.length_tail, List.length_erase_of_mem hb]
      omega
    · cases hs

theorem inOrder_run (events : List Activity) (w : Writer) (hr : runs deliver {} events = some w) :
    InOrder (postedBuffers events) w := by
  induction events using List.reverseRecOn generalizing w with
  | nil =>
    simp only [runs_nil, Option.some.injEq] at hr
    exact hr ▸ inOrder_initial
  | append_singleton events a ih =>
    obtain ⟨v, hv, ha⟩ := runs_concat.mp hr
    exact (ih v hv).step ha

/-- On one thread the write queue delivers everything in order: the buffer that
the next completion pops has been started, and so has every buffer that has left
the queue; writes are started in the order of posting; no fewer writes are
outstanding than buffers queued; and when no write is outstanding, the queue is
empty and every posted buffer has been started. -/
theorem delivers_in_order (events : List Activity) (w : Writer)
    (hr : runs deliver {} events = some w) :
    (∀ b ∈ w.queue.head?, b ∈ w.started) ∧
    (∀ b ∈ postedBuffers events, b ∈ w.queue ∨ b ∈ w.started) ∧
    (w.started.Pairwise fun a b => a.serial ≤ b.serial) ∧
    w.queue.length ≤ w.outstanding.length ∧
    (w.outstanding = [] → w.queue = [] ∧ ∀ b ∈ postedBuffers events, b ∈ w.started) := by
  have h := inOrder_run events w hr
  obtain ⟨popped, hposted, hpopped⟩ := h.suffix
  have hmem : ∀ b ∈ postedBuffers events, b ∈ w.queue ∨ b ∈ w.started := by
    intro b hb
    rw [hposted] at hb
    exact (List.mem_append.mp hb).symm.imp_right (hpopped b)
  refine ⟨h.front, hmem, h.sorted, h.enough, fun hout => ?_⟩
  have hlen := h.enough
  rw [hout, List.length_nil] at hlen
  have hempty : w.queue = [] := List.length_eq_zero_iff.mp (by omega)
  refine ⟨hempty, fun b hb => (hmem b hb).resolve_left ?_⟩
  simp [hempty]

/-- Two responses are posted before the first write completes. -/
def twoPosts : List Activity :=
  [.post [1], .post [2], .completed ⟨0, [1]⟩, .completed ⟨0, [1]⟩, .completed ⟨1, [2]⟩]

theorem delivers_in_order_two_posts : ∃ w, runs deliver {} twoPosts = some w ∧
    w.started = [⟨0, [1]⟩, ⟨0, [1]⟩, ⟨1, [2]⟩] ∧ ∀ b ∈ postedBuffers twoPosts, b ∈ w.started := by
  have hrun : (runs deliver {} twoPosts).map (fun w => (w.started, w.outstanding)) =
      some ([⟨0, [1]⟩, ⟨0, [1]⟩, ⟨1, [2]⟩], []) := by decide +kernel
  obtain ⟨w, hw, hobs⟩ := Option.map_eq_some_iff.mp hrun
  simp only [Prod.mk.injEq] at hobs
  obtain ⟨-, -, -, -, hall⟩ := delivers_in_order twoPosts w hw
  exact ⟨w, hw, hobs.1, (hall hobs.2).2⟩

end Events

/-! ## Several threads -/

/-- A buffer that has been pushed is still queued or has been started. -/
def NothingLost (p : WriterPool) : Prop :=
  ∀ e ∈ p.trace, ∀ b, e.command = .pushWriteBuffer b → b ∈ p.shared.queue ∨ b ∈ p.shared.started

/-- The side condition on a run: a completion handler does not pop while `PostWrite`
is between its push and its start and its buffer is the only one queued. -/
def PopAfterStart (p : WriterPool) : Action Side Activity → Prop
  | .start _ _ => True
  | .advance i => p.next i = some .popFrontWriteBuffer → p.next .reader = some .writeAsync →
      p.shared.queue.length ≠ 1

instance (p : WriterPool) : ∀ act, Decidable (PopAfterStart p act)
  | .start _ _ => .isTrue trivial
  | .advance i => inferInstanceAs (Decidable (p.next i = some .popFrontWriteBuffer →
      p.next .reader = some .writeAsync → p.shared.queue.length ≠ 1))

/-- The front of the queue has been started, or it is the only buffer and the
reader, at stage `x`, is about to start it. -/
def FrontStarted (w : Writer) (x : Stage) : Prop :=
  (∀ b ∈ w.queue.head?, b ∈ w.started) ∨ ∃ b, x = .starting b ∧ w.queue = [b]

/-- After a pop the strand starts the new front before it pops again. -/
def StrandReady (w : Writer) (x : Stage) : Stage → Prop
  | .idle => FrontStarted w x
  | .popping => FrontStarted w x
  | _ => True

section Interleaved

variable {w w' : Writer} {x x' y y' : Stage} {a : Activity} {c : Command} {r : Reply c}

theorem StrandReady.mono {w w' : Writer} {x x' : Stage} (h : StrandReady w x y)
    (hf : FrontStarted w x → FrontStarted w' x') : StrandReady w' x' y := by
  cases y with
  | idle => exact hf h
  | popping => exact hf h
  | _ => trivial

theorem frontStarted_start (w : Writer) (x : Stage) : FrontStarted (startFront w) x := by
  refine .inl fun b hb => ?_
  cases hq : w.queue with
  | nil => simp [startFront, hq] at hb
  | cons front rest =>
    obtain rfl : front = b := by simpa [startFront, hq] using hb
    simp [startFront, hq]

/-- One step of `PostWrite`. -/
theorem StrandReady.reader (h : StrandReady w x y) (hm : Move .reader a x c r x')
    (he : exec c w = some (r, w')) : StrandReady w' x' y := by
  cases hm with
  | make data b =>
    cases executed_of_exec he
    refine h.mono fun hf => .inl (hf.resolve_right ?_)
    rintro ⟨b, hb, -⟩
    cases hb
  | push data b =>
    cases executed_of_exec he
    refine h.mono fun hf => ?_
    have hstarted := hf.resolve_right (by rintro ⟨b, hb, -⟩; cases hb)
    cases hq : w.queue with
    | nil => exact .inr ⟨b, rfl, by simp⟩
    | cons front rest =>
      refine .inl fun d hd => hstarted d ?_
      simpa [hq] using hd
  | start data b =>
    cases executed_of_exec he
    exact h.mono fun _ => frontStarted_start w _

/-- One step of a completion handler. -/
theorem StrandReady.strand (h : StrandReady w x y) (hm : Move .strand a y c r y')
    (he : exec c w = some (r, w')) : StrandReady w' x y' := by
  cases hm with
  | complete b =>
    cases executed_of_exec he
    exact h
  | pop b => trivial
  | stop b =>
    simp only [exec, Option.some.injEq, Prod.mk.injEq] at he
    obtain ⟨hempty, rfl⟩ := he
    exact .inl (by simp [List.isEmpty_iff.mp hempty])
  | more b => trivial
  | restart b =>
    cases executed_of_exec he
    exact frontStarted_start w x

/-- A buffer leaves the queue only by a pop, and then it was the front. -/
theorem kept_of_exec {b : Buffer} (hb : b ∈ w.queue ∨ b ∈ w.started) (he : exec c w = some (r, w'))
    (hpop : c = .popFrontWriteBuffer → ∀ d ∈ w.queue.head?, d ∈ w.started) :
    b ∈ w'.queue ∨ b ∈ w'.started := by
  cases executed_of_exec he with
  | makeShared | isWriteBufferQueueEmpty | complete => exact hb
  | pushWriteBuffer d => exact hb.imp_left (List.mem_append_left _)
  | writeAsync =>
    unfold startFront
    split
    · exact hb
    · exact hb.imp_right (List.mem_append_left _)
  | popFrontWriteBuffer =>
    rcases hb with hb | hb
    · cases hq : w.queue with
      | nil => simp [hq] at hb
      | cons front rest =>
        rw [hq] at hb
        rcases List.mem_cons.mp hb with rfl | hb
        · exact .inr (hpop rfl b (by simp [hq]))
        · exact .inl (by simpa using hb)
    · exact .inr hb

variable {p p' : WriterPool} {act : Action Side Activity}

/-- The two sides are at stages that fit their programs, the front is taken care
of, and nothing is lost. -/
def Delivering (p : WriterPool) : Prop :=
  NothingLost p ∧ ∃ stage, Staged Move (Resting .idle) .idle p stage ∧
    StrandReady p.shared (stage .reader) (stage .strand)

theorem delivering_idle : Delivering (Pool.idle {}) := by
  refine ⟨fun e he => ?_, fun _ => .idle, staged_idle _, .inl ?_⟩
  · simp [Pool.idle] at he
  · simp [Pool.idle]

/-- A thread that is about to start its buffer is about to call `WriteAsync`. -/
theorem next_of_starting {stage : Side → Stage} (hst : Staged Move (Resting .idle) .idle p stage)
    {b : Buffer} (hb : stage .reader = .starting b) : p.next .reader = some .writeAsync := by
  obtain ⟨a, c, k, ht, hk⟩ := hst.next_command (i := .reader) (by simp [hb])
  obtain ⟨y, hy, -⟩ := hk default
  have hnext : p.next .reader = some c := by simp [Pool.next, Program.next, ht]
  generalize (default : Reply c) = r at hy
  rw [hb] at hy
  cases hy with
  | start => exact hnext

theorem Delivering.step (h : Delivering p) (hok : PopAfterStart p act)
    (hs : writer.step p act = some p') : Delivering p' := by
  obtain ⟨hlost, stage, hst, hready⟩ := h
  rcases hst.step body_conforms (fun _ h => h) hs with ⟨hst', hsh, htr⟩ |
    ⟨i, a, c, k, r, x, rfl, hth, he, hm, htr, hst'⟩
  · exact ⟨fun e => htr ▸ hsh ▸ hlost e, stage, hst', hsh ▸ hready⟩
  · have hnext : p.next i = some c := by simp [Pool.next, Program.next, hth]
    have hpop : c = .popFrontWriteBuffer → ∀ d ∈ p.shared.queue.head?, d ∈ p.shared.started := by
      rintro rfl
      cases i with
      | reader =>
        generalize stage .reader = y at hm
        cases hm
      | strand =>
        have hfront : FrontStarted p.shared (stage .reader) := by
          generalize stage .strand = y at hready hm
          cases hm with
          | pop => exact hready
        refine hfront.resolve_right ?_
        rintro ⟨b, hb, hq⟩
        exact hok hnext (next_of_starting hst hb) (by simp [hq])
    refine ⟨?_, _, hst', ?_⟩
    · rw [NothingLost, htr]
      intro e he' b hb
      rcases List.mem_append.mp he' with he' | he'
      · exact kept_of_exec (hlost e he' b hb) he hpop
      · obtain rfl : e = ⟨i, a, c⟩ := by simpa using he'
        obtain rfl : c = .pushWriteBuffer b := hb
        simp only [writer, exec, Option.some.injEq, Prod.mk.injEq, true_and] at he
        rw [← he]
        exact .inl (by simp)
    · cases i with
      | reader =>
        rw [Function.update_self, Function.update_of_ne (by decide)]
        exact hready.reader hm he
      | strand =>
        rw [Function.update_self, Function.update_of_ne (by decide)]
        exact hready.strand hm he

/-- No posted response is lost: in every run in which no completion handler pops
while the only queued buffer is one that `PostWrite` has pushed and not yet tried
to start, every pushed buffer is queued or has been started. -/
theorem nothing_lost (acts : List (Action Side Activity)) (p : WriterPool)
    (hr : runs writer.step (Pool.idle {}) acts = some p)
    (hok : Along writer.step PopAfterStart (Pool.idle {}) acts) : NothingLost p :=
  (invariant_along (I := Delivering) (fun _ _ _ h hok hs => h.step hok hs) delivering_idle hok hr).1

/-- A completion handler from its start to its return, with a restart or without
one. -/
def completion (b : Buffer) (restarts : Bool) : List (Action Side Activity) :=
  .start .strand (.completed b) :: List.replicate (if restarts then 5 else 4) (.advance .strand)

/-- The second write of the first buffer completes after the third response has
been pushed and started. -/
def pushAfterBacklog : List (Action Side Activity) := List.flatten
  [posted [1], posted [2], completion ⟨0, [1]⟩ true, posted [3], completion ⟨0, [1]⟩ true]

theorem nothing_lost_after_backlog : ∃ p,
    runs writer.step (Pool.idle {}) pushAfterBacklog = some p ∧
    p.shared.queue = [⟨2, [3]⟩] ∧ NothingLost p := by
  have hrun : (runs writer.step (Pool.idle {}) pushAfterBacklog).map (fun p => p.shared.queue) =
      some [⟨2, [3]⟩] := by decide +kernel
  obtain ⟨p, hp, hqueue⟩ := Option.map_eq_some_iff.mp hrun
  have hok : Along writer.step PopAfterStart (Pool.idle {}) pushAfterBacklog := by decide +kernel
  exact ⟨p, hp, hqueue, nothing_lost _ p hp hok⟩

/-- The first buffer is written twice, so one completion is left over when the
queue is empty; it meets the third response between its push and its start. -/
def popBeforeStart : List (Action Side Activity) := List.flatten
  [posted [1], posted [2], completion ⟨0, [1]⟩ true, completion ⟨0, [1]⟩ false,
    [.start .reader (.post [3]), .advance .reader, .advance .reader],
    [.start .strand (.completed ⟨1, [2]⟩), .advance .strand, .advance .strand]]

theorem pushed_buffer_popped_unstarted :
    ¬ ∀ (acts : List (Action Side Activity)) (p : WriterPool),
      runs writer.step (Pool.idle {}) acts = some p → NothingLost p := by
  intro hall
  have hrun : (runs writer.step (Pool.idle {}) popBeforeStart).map (fun p =>
      decide ((∃ e ∈ p.trace, e.command = .pushWriteBuffer ⟨2, [3]⟩) ∧
        ⟨2, [3]⟩ ∉ p.shared.queue ∧ ⟨2, [3]⟩ ∉ p.shared.started)) = some true := by decide +kernel
  obtain ⟨p, hp, hobs⟩ := Option.map_eq_some_iff.mp hrun
  obtain ⟨⟨e, he, hpush⟩, hqueue, hstarted⟩ := of_decide_eq_true hobs
  exact (hall _ p hp e he _ hpush).elim hqueue hstarted

end Interleaved

end IsolationServer.WriteQueue
