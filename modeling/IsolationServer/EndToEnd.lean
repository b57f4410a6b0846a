import IsolationServer.Authentication
import IsolationServer.RejectedInput

/-!
# From the bytes received to the bytes sent

The server on one thread, with its receive buffers, handler tables and write queues,
does what the abstract machine does with the requests that the reads amount to. The
socket of each client is handed the packets of the machine's responses to it, in order,
each of them once or several times in a row.
-/
namespace IsolationServer.EndToEnd
open Authentication ClientViews CommandPrograms Connections EventLoop HashStore ReadLoop Runs
  WriteQueue

/-! ## Writing a list with repetitions -/

/-- `Repeats l l'`: the list `l'` goes through `l` in order, and has each entry of it
once or several times in a row. -/
inductive Repeats {α : Type} : List α → List α → Prop where
  | nil : Repeats [] []
  | next (l l' : List α) (a : α) : Repeats l l' → Repeats (l ++ [a]) (l' ++ [a])
  | again (l l' : List α) (a : α) : Repeats (l ++ [a]) l' → Repeats (l ++ [a]) (l' ++ [a])

/-! ## A write queue -/

/-- Of the posted packets, the last ones are still queued, and all up to the front of
the queue have been written. All but at most `k` of those queued have a write
outstanding. -/
structure Sends (packets : List Bytes) (k : ℕ) (w : Writer) : Prop where
  queued : ∃ sent, packets = sent ++ w.queue.map Buffer.data ∧
    Repeats (sent ++ (w.queue.head?.map Buffer.data).toList) (w.started.map Buffer.data)
  enough : w.queue.length ≤ w.outstanding.length + k

section Writers

variable {packets : List Bytes} {k : ℕ} {w w' : Writer}

theorem sends_empty : Sends [] k {} := ⟨⟨[], rfl, .nil⟩, Nat.zero_le _⟩

/-- Nothing is left to write once all writes have completed without an error. -/
theorem Sends.all_written (h : Sends packets 0 w) (hout : w.outstanding = []) :
    Repeats packets (w.started.map Buffer.data) := by
  obtain ⟨sent, hpackets, hrepeats⟩ := h.queued
  have hlen := h.enough
  rw [hout] at hlen
  have hqueue : w.queue = [] := List.eq_nil_of_length_eq_zero (Nat.le_zero.mp hlen)
  simp only [hqueue, List.map_nil, List.append_nil, List.head?_nil, Option.map_none,
    Option.toList_none] at hpackets hrepeats
  exact hpackets ▸ hrepeats

/-- A write of the front, which has been written before if it was the front already. -/
theorem sends_startFront (sent : List Bytes) (hpackets : packets = sent ++ w.queue.map Buffer.data)
    (hrepeats : Repeats (sent ++ (w.queue.head?.map Buffer.data).toList)
        (w.started.map Buffer.data) ∨
      Repeats sent (w.started.map Buffer.data))
    (henough : w.queue.length ≤ w.outstanding.length + 1 + k) :
    Sends packets k (startFront w) := by
  cases hq : w.queue with
  | nil =>
    have hsame : startFront w = w := by rw [startFront, hq]
    rw [hsame]
    refine ⟨⟨sent, hpackets, ?_⟩, by simp [hq]⟩
    simpa [hq] using hrepeats
  | cons front rest =>
    have hstart : startFront w = { w with
        outstanding := w.outstanding ++ [front], started := w.started ++ [front] } := by
      rw [startFront, hq]
    rw [hstart]
    refine ⟨⟨sent, hpackets, ?_⟩, by simpa using henough⟩
    simp only [hq, List.head?_cons, Option.map_some, Option.toList_some] at hrepeats
    simp only [hq, List.head?_cons, Option.map_some, Option.toList_some, List.map_append,
      List.map_cons, List.map_nil]
    rcases hrepeats with h | h
    · exact .again _ _ _ h
    · exact .next _ _ _ h

theorem Sends.post (h : Sends packets k w) {data : Bytes}
    (hs : deliver w (.post data) = some w') : Sends (packets ++ [data]) k w' := by
  rw [deliver_post] at hs
  obtain rfl := Option.some.inj hs
  obtain ⟨sent, hpackets, hrepeats⟩ := h.queued
  have henough := h.enough
  apply sends_startFront sent
  · simp [hpackets]
  · cases hq : w.queue with
    | nil => exact .inr (by simpa [hq] using hrepeats)
    | cons front rest => exact .inl (by simpa [hq] using hrepeats)
  · rw [List.length_append, List.length_singleton]
    dsimp only
    omega

theorem Sends.completed (h : Sends packets k w) {b : Buffer}
    (hs : deliver w (.completed b) = some w') : Sends packets k w' := by
  rw [deliver_completed] at hs
  split at hs
  · rename_i hb
    obtain rfl := Option.some.inj hs
    obtain ⟨sent, hpackets, hrepeats⟩ := h.queued
    have henough : w.queue.tail.length ≤ (w.outstanding.erase b).length + 1 + k := by
      have hle := h.enough
      have htail := @List.length_tail _ w.queue
      have hlen := List.length_erase_of_mem hb
      have hpos := List.length_pos_of_mem hb
      omega
    cases hq : w.queue with
    | nil =>
      apply sends_startFront sent
      · simp [hpackets, hq]
      · exact .inr (by simpa [hq] using hrepeats)
      · rwa [← hq]
    | cons front rest =>
      apply sends_startFront (sent ++ [front.data])
      · simp [hpackets, hq]
      · exact .inr (by simpa [hq] using hrepeats)
      · rwa [← hq]
  · cases hs

/-- A write that has failed is not taken off the queue. -/
theorem Sends.failed (h : Sends packets k w) {b : Buffer}
    (hs : WriteQueue.exec (.complete b) w = some ((), w')) : Sends packets (k + 1) w' := by
  cases WriteQueue.executed_of_exec hs with
  | complete _ hb =>
    refine ⟨h.queued, ?_⟩
    have hle := h.enough
    have hlen := List.length_erase_of_mem hb
    have hpos := List.length_pos_of_mem hb
    dsimp only
    omega

end Writers

/-! ## What the events amount to -/

/-- The responses to one client. -/
def answersTo (u : Token) (responses : List (Token × Response)) : List Response :=
  (responses.filter fun q => q.1 = u).map Prod.snd

/-- The machine, with its responses to each client on the present connection. -/
structure Dialogue where
  machine : Machine
  sent : Token → List Response

def Dialogue.initial (accounts : Bytes → Option Account) : Dialogue where
  machine := Machine.withAccounts accounts
  sent _ := []

/-- A new connection starts with nothing sent. -/
def Dialogue.step (gen : Generated) (d : Dialogue) (e : Token × Activity) : Option Dialogue :=
  (d.machine.step gen e).map fun M =>
    { machine := M
      sent := fun u =>
        (match e.2 with
          | .accept _ => Function.update d.sent e.1 [] u
          | _ => d.sent u) ++ answersTo u (M.posted.drop d.machine.posted.length) }

section Meaning

variable (gen : Generated) (wild : PacketCall → Bytes)

/-- The event that a completed read amounts to, if any, by the verdict of the read loop:
a read below a header is completed by what is left in the buffer, and a negative length
hands on the bytes of `wild`. -/
def requested (buffer : RecvBuffer) (r : ReadResult) (now : ℕ) : Option Activity :=
  match readCompleted buffer r with
  | .handleError => some .disconnect
  | .readAgain none => none
  | .readAgain (some c) =>
    match (readySocket gen).packetHandler c.type with
    | none => none
    | some h =>
      if c.type = gen.emDisconnected then none
      else some (PacketHandler.activity (PacketCall.seen wild c) now h)

/-- The buffers after an event. -/
def received (buffers : Token → RecvBuffer) : Event → Token → RecvBuffer
  | .accept t _ recvBuffer => Function.update buffers t recvBuffer
  | .read t r _ => Function.update buffers t ((buffers t).receive r.data)
  | .written _ _ _ => buffers

def meaning (buffers : Token → RecvBuffer) : Event → List (Token × Activity)
  | .accept t now _ => [(t, .accept now)]
  | .read t r now =>
    ((requested gen wild ((buffers t).receive r.data) r now).map (Prod.mk t)).toList
  | .written _ _ _ => []

/-- The events of the machine that the events of the server amount to. -/
def meanings (buffers : Token → RecvBuffer) : List Event → List (Token × Activity)
  | [] => []
  | e :: events => meaning gen wild buffers e ++ meanings (received buffers e) events

end Meaning

/-- A read of a header or more amounts to a request exactly if it is the frame of a
payload whose type has a handler, whatever is left in the buffer. -/
theorem requested_eq_some_iff (gen : Generated) (wild : PacketCall → Bytes) (buffer : RecvBuffer)
    {data : Bytes} (h12 : 12 ≤ data.length) (hfit : data.length ≤ recvBufferSize) (now : ℕ)
    (a : Activity) :
    requested gen wild (buffer.receive data) ⟨data, false⟩ now = some a ↔
      ∃ type payload h, data = WireFormat.frame type payload ∧
        (readySocket gen).packetHandler type = some h ∧ type ≠ gen.emDisconnected ∧
        a = PacketHandler.activity payload now h := by
  have hread := readCompleted_eq (buffer.receive data) (show 1 ≤ data.length by omega)
  constructor
  · intro ha
    cases hd : dispatch (buffer.receive data) (UInt64.ofNat data.length) with
    | none =>
      rw [requested, hread, hd] at ha
      cases ha
    | some c =>
      rw [hd] at hread
      have hframe := ((WireFormat.readCompleted_frame_iff buffer h12 hfit c).mp hread).1
      simp only [requested, hread, RejectedInput.seen_eq_payload h12 hfit hread] at ha
      cases htable : (readySocket gen).packetHandler c.type with
      | none =>
        rw [htable] at ha
        cases ha
      | some h =>
        by_cases htype : c.type = gen.emDisconnected
        · simp only [htable, if_pos htype] at ha
          cases ha
        · simp only [htable, if_neg htype, Option.some.injEq] at ha
          exact ⟨c.type, c.payload, h, hframe, htable, htype, ha.symm⟩
  · rintro ⟨type, payload, h, hdata, htable, htype, rfl⟩
    have hlen := congrArg List.length hdata
    rw [WireFormat.length_frame] at hlen
    have hlength : (Int32.ofNat payload.length).toInt = payload.length := by
      unfold recvBufferSize at hfit
      exact Int32.toInt_ofNat_of_lt (by omega)
    have hcall := (WireFormat.readCompleted_frame_iff buffer h12 hfit
      ⟨type, payload, Int32.ofNat payload.length⟩).mpr ⟨hdata, hlength⟩
    simp only [requested, hcall, RejectedInput.seen_eq_payload h12 hfit hcall, htable,
      if_neg htype]

/-- The writes of each client that have failed on its present connection. -/
def failures (k : Token → ℕ) : Event → Token → ℕ
  | .accept t _ _ => Function.update k t 0
  | .written t _ true => Function.update k t (k t + 1)
  | _ => k

/-! ## One event of the world -/

section Worlds

variable {gen : Generated} {wild : PacketCall → Bytes} {w w' : World} {M : Machine} {t : Token}

/-- Connected clients have the handlers that `AddClient` installs. -/
def Tabled (gen : Generated) (w : World) : Prop :=
  ∀ t ∈ w.connectedClients, (w.sockets t).packetHandler = (readySocket gen).packetHandler

/-- A handler leaves the handler tables alone. -/
theorem table_of_effect {data : Bytes} {now : ℕ} {h : PacketHandler}
    (heff : Effect gen w t (PacketHandler.activity data now h) w') (u : Token) :
    (w'.sockets u).packetHandler = (w.sockets u).packetHandler := by
  cases h with
  | login =>
    cases heff with
    | enter => by_cases hu : u = t <;> simp [World.post, World.enter, hu]
    | refuse => rfl
  | creationAccount => cases heff <;> rfl
  | playerData => cases heff <;> rfl
  | logout =>
    cases heff with
    | refuse => rfl
    | leave =>
      unfold World.leave
      cases w.redis.hashGet (clientKey t) (str "loginId") with
      | none => rfl
      | some id => by_cases hu : u = t <;> simp [hu]
    | ignore => rfl

theorem Tabled.change (h : Tabled gen w) (hc : Change gen w t w') : Tabled gen w' := by
  cases hc with
  | connect now =>
    intro u hu
    by_cases hut : u = t
    · simp [World.connect, hut]
    · have hmem : u ∈ w.connectedClients := by simpa [World.connect, hut] using hu
      simpa [World.connect, hut] using h u hmem
  | same => exact h
  | handled data now p _ ht heff =>
    intro u hu
    rw [clients_of_effect heff] at hu
    rw [table_of_effect heff u]
    exact h u hu
  | closed ht =>
    intro u hu
    have hmem : u ∈ w.connectedClients.erase t := by simpa [World.disconnect, reading] using hu
    obtain ⟨hut, hmem⟩ := Finset.mem_erase.mp hmem
    have hleave : ((w.leave t).sockets u).packetHandler = (w.sockets u).packetHandler := by
      unfold World.leave
      cases w.redis.hashGet (clientKey t) (str "loginId") <;> simp [hut]
    rw [leave_reading]
    simpa [World.disconnect, reading, World.setSocket, hut, hleave] using h u hmem

/-- The machine does not see the pending reads. -/
theorem represents_reading (h : Represents w M) (n : ℕ) : Represents (reading w t n) M :=
  ⟨h.unlocked, h.accounts, h.lease, h.connected, h.client, h.registered, h.posted⟩

theorem activity_allows (ht : t ∈ w.connectedClients) (data : Bytes) (now : ℕ)
    (h : PacketHandler) : (PacketHandler.activity data now h).allows w t = true := by
  cases h <;> simpa [PacketHandler.activity, Activity.allows] using ht

/-- The read of a connected client does what the machine does with the event that it
amounts to. -/
theorem read_refines (wild : PacketCall → Bytes) (h : Represents w M) (hatt : Attached gen w)
    (htab : Tabled gen w) (ht : t ∈ w.connectedClients) (buffer : RecvBuffer) (r : ReadResult)
    (now : ℕ) :
    ∃ w' M', Program.run exec (readHandler gen wild t buffer r now) w = some ((), w') ∧
      runs (Machine.step gen) M
        ((requested gen wild buffer r now).map (Prod.mk t)).toList = some M' ∧
      Represents w' M' := by
  have hconn : t ∈ M.connected := h.connected ▸ ht
  rw [run_read hatt ht, requested]
  cases readCompleted buffer r with
  | handleError =>
    have hallow : Activity.disconnect.allows (reading w t 0) t = true := decide_eq_true ht
    obtain ⟨w', hw', hrep⟩ := (represents_reading h 0).handle gen hallow
    refine ⟨w', _, congrArg (Option.map (Prod.mk ())) hw', ?_, hrep⟩
    simp [runs, Machine.step, hconn]
  | readAgain c =>
    cases c with
    | none => exact ⟨w, M, rfl, rfl, h⟩
    | some c =>
      dsimp only
      rw [packetOutcome, htab t ht]
      cases (readySocket gen).packetHandler c.type with
      | none => exact ⟨w, M, rfl, rfl, h⟩
      | some p =>
        dsimp only
        split_ifs
        · exact ⟨w, M, rfl, rfl, h⟩
        · have hallow := activity_allows ht (PacketCall.seen wild c) now p
          obtain ⟨w', hw', hrep⟩ := h.handle gen hallow
          refine ⟨w', _, congrArg (Option.map (Prod.mk ())) hw', ?_, hrep⟩
          simp [runs, h.step_eq hallow]

theorem requested_ne_accept (buffer : RecvBuffer) (r : ReadResult) (now n : ℕ) :
    requested gen wild buffer r now ≠ some (.accept n) := by
  unfold requested
  split
  · simp
  · simp
  · split
    · simp
    · split_ifs
      · simp
      · exact fun h => accept_ne_activity _ _ _ _ (Option.some.inj h)

end Worlds

/-! ## One event of the server -/

/-- The server in step with the machine, after `k` failed writes of each client. -/
structure Simulates (gen : Generated) (k : Token → ℕ) (n : Node) (d : Dialogue) : Prop where
  represents : Represents n.world d.machine
  attached : Attached gen n.world
  tabled : Tabled gen n.world
  sends : ∀ u, Sends ((d.sent u).map (Response.packet gen)) (k u) (n.writers u)

/-- What can happen in a state: a new client, a completed read of a connected client, and
a completed write. -/
def Enabled (n : Node) : Event → Prop
  | .accept t _ _ => t ∉ n.world.connectedClients
  | .read t _ _ => t ∈ n.world.connectedClients
  | .written t buffer _ => buffer ∈ (n.writers t).outstanding

section Nodes

variable {gen : Generated} {wild : PacketCall → Bytes} {k : Token → ℕ} {n n' : Node}
  {d : Dialogue} {t : Token}

/-- The responses of an event are posted to the clients that they are for. -/
theorem postWrites_sends {responses : List (Token × Response)} {sent : Token → List Response}
    {writers writers' : Token → Writer} (hp : postWrites gen writers responses = some writers')
    (h : ∀ u, Sends ((sent u).map (Response.packet gen)) (k u) (writers u)) (u : Token) :
    Sends ((sent u ++ answersTo u responses).map (Response.packet gen)) (k u) (writers' u) := by
  induction responses generalizing writers sent with
  | nil =>
    obtain rfl := Option.some.inj hp
    simpa [answersTo] using h u
  | cons q rest ih =>
    obtain ⟨t, response⟩ := q
    obtain ⟨writer, hw, hrest⟩ := Option.bind_eq_some_iff.mp hp
    let sent' := Function.update sent t (sent t ++ [response])
    have hposted : ∀ v, Sends ((sent' v).map (Response.packet gen)) (k v)
        (Function.update writers t writer v) := by
      intro v
      by_cases hv : v = t
      · subst hv
        simpa [sent'] using (h v).post hw
      · simpa [sent', hv] using h v
    have hnext := ih hrest hposted
    by_cases hu : u = t
    · subst hu
      simpa [answersTo, sent'] using hnext
    · simpa [answersTo, sent', hu, Ne.symm hu] using hnext

/-- The machine goes along with at most one event, which is not a new connection. -/
theorem dialogue_runs {M : Machine} {a : Option Activity} (ha : ∀ now, a ≠ some (.accept now))
    (hr : runs (Machine.step gen) d.machine (a.map (Prod.mk t)).toList = some M) :
    runs (Dialogue.step gen) d (a.map (Prod.mk t)).toList = some
      ⟨M, fun u => d.sent u ++ answersTo u (M.posted.drop d.machine.posted.length)⟩ := by
  cases a with
  | none =>
    obtain rfl := Option.some.inj hr
    simp [answersTo]
  | some b =>
    obtain ⟨M', hM', hnil⟩ := runs_cons.mp hr
    obtain rfl := Option.some.inj hnil
    have hstep : Dialogue.step gen d (t, b) = some
        ⟨M', fun u => d.sent u ++ answersTo u (M'.posted.drop d.machine.posted.length)⟩ := by
      rw [Dialogue.step, hM', Option.map_some]
      cases b with
      | accept now => exact absurd rfl (ha now)
      | _ => rfl
    simp [runs, hstep]

theorem Simulates.accept (h : Simulates gen k n d) {now : ℕ} {recvBuffer : RecvBuffer}
    (hs : step gen wild n (.accept t now recvBuffer) = some n') :
    ∃ d', runs (Dialogue.step gen) d [(t, .accept now)] = some d' ∧
      Simulates gen (Function.update k t 0) n' d' := by
  have hchange := change_of_step h.attached hs
  simp only [step] at hs
  split at hs
  · cases hs
  · rename_i ht
    rw [run_acceptClient gen t n.world now h.represents.unlocked] at hs
    obtain rfl := Option.some.inj hs
    have hconn : t ∉ d.machine.connected := h.represents.connected ▸ ht
    let d' : Dialogue :=
      ⟨{ d.machine with connected := insert t d.machine.connected }, Function.update d.sent t []⟩
    have hstep : Dialogue.step gen d (t, .accept now) = some d' := by
      simp [Dialogue.step, Machine.step, Machine.react, hconn, answersTo, d']
    refine ⟨d', by simp [runs, hstep], h.represents.connect t now, h.attached.change hchange,
      h.tabled.change hchange, fun u => ?_⟩
    by_cases hu : u = t
    · subst hu
      simpa [d'] using sends_empty
    · simpa [d', hu] using h.sends u

/-- The read of a connected client is handled to the end. -/
theorem step_read_exists (wild : PacketCall → Bytes) (h : Simulates gen k n d)
    (ht : t ∈ n.world.connectedClients) (r : ReadResult) (now : ℕ) :
    ∃ n' d', step gen wild n (.read t r now) = some n' ∧
      runs (Dialogue.step gen) d (meaning gen wild n.buffers (.read t r now)) = some d' ∧
      Simulates gen k n' d' := by
  obtain ⟨w', M', hrun, hmachine, hrep⟩ := read_refines wild h.represents h.attached
    h.tabled ht ((n.buffers t).receive r.data) r now
  obtain ⟨writers, hpost⟩ := RejectedInput.postWrites_total gen n.writers
    (w'.posted.drop n.world.posted.length)
  have hstep : step gen wild n (.read t r now) = some
      ⟨w', Function.update n.buffers t ((n.buffers t).receive r.data), writers⟩ := by
    simp only [step, hrun, Option.bind_some, hpost, Option.map_some]
  have hchange := change_of_step h.attached hstep
  refine ⟨_, _, hstep, dialogue_runs (requested_ne_accept _ r now) hmachine, hrep,
    h.attached.change hchange, h.tabled.change hchange, ?_⟩
  rw [hrep.posted, h.represents.posted] at hpost
  exact postWrites_sends hpost h.sends

theorem Simulates.read (h : Simulates gen k n d) {r : ReadResult} {now : ℕ}
    (hs : step gen wild n (.read t r now) = some n') :
    ∃ d', runs (Dialogue.step gen) d (meaning gen wild n.buffers (.read t r now)) = some d' ∧
      Simulates gen k n' d' := by
  by_cases ht : t ∈ n.world.connectedClients
  · obtain ⟨n'', d', hstep, hd, hsim⟩ := step_read_exists wild h ht r now
    obtain rfl := Option.some.inj (hs.symm.trans hstep)
    exact ⟨d', hd, hsim⟩
  · have hreads := h.attached.reads t
    rw [if_neg ht] at hreads
    rw [step, run_readHandler_none _ r now hreads] at hs
    cases hs

theorem Simulates.written (h : Simulates gen k n d) {buffer : Buffer} {failed : Bool}
    (hs : step gen wild n (.written t buffer failed) = some n') :
    Simulates gen (failures k (.written t buffer failed)) n' d := by
  cases failed with
  | false =>
    obtain ⟨writer, hw, rfl⟩ := Option.map_eq_some_iff.mp hs
    refine ⟨h.represents, h.attached, h.tabled, fun u => ?_⟩
    by_cases hu : u = t
    · subst hu
      simpa [failures] using (h.sends u).completed hw
    · simpa [failures, hu] using h.sends u
  | true =>
    obtain ⟨q, hw, rfl⟩ := Option.map_eq_some_iff.mp hs
    refine ⟨h.represents, h.attached, h.tabled, fun u => ?_⟩
    by_cases hu : u = t
    · subst hu
      simpa [failures] using (h.sends u).failed hw
    · simpa [failures, hu] using h.sends u

theorem Simulates.step {e : Event} (h : Simulates gen k n d)
    (hs : EventLoop.step gen wild n e = some n') :
    ∃ d', runs (Dialogue.step gen) d (meaning gen wild n.buffers e) = some d' ∧
      Simulates gen (failures k e) n' d' := by
  cases e with
  | accept t now recvBuffer => exact h.accept hs
  | read t r now => exact h.read hs
  | written t buffer failed => exact ⟨d, rfl, h.written hs⟩

theorem buffers_of_step {e : Event} (hs : EventLoop.step gen wild n e = some n') :
    n'.buffers = received n.buffers e := by
  cases e with
  | accept t now recvBuffer =>
    simp only [EventLoop.step] at hs
    split at hs
    · cases hs
    · obtain ⟨q, -, rfl⟩ := Option.map_eq_some_iff.mp hs
      rfl
  | read t r now =>
    obtain ⟨q, -, hpost⟩ := Option.bind_eq_some_iff.mp hs
    obtain ⟨writers, -, rfl⟩ := Option.map_eq_some_iff.mp hpost
    rfl
  | written t buffer failed =>
    cases failed with
    | false =>
      obtain ⟨writer, -, rfl⟩ := Option.map_eq_some_iff.mp hs
      rfl
    | true =>
      obtain ⟨q, -, rfl⟩ := Option.map_eq_some_iff.mp hs
      rfl

end Nodes

/-! ## Runs -/

section Runs

variable {gen : Generated} {wild : PacketCall → Bytes}

theorem simulates_initial {redis : Redis} {accounts : Bytes → Option Account}
    (h : Recorded redis accounts) (buffers : Token → RecvBuffer) :
    Simulates gen (fun _ => 0) (Node.initial redis buffers) (Dialogue.initial accounts) where
  represents := h.represents
  attached := attached_initial redis
  tabled t ht := by simp [Node.initial, World.initial] at ht
  sends _ := sends_empty

theorem simulates_run {events : List Event} {k : Token → ℕ} {n n' : Node} {d : Dialogue}
    (h : Simulates gen k n d) (hr : runs (step gen wild) n events = some n') :
    ∃ d', runs (Dialogue.step gen) d (meanings gen wild n.buffers events) = some d' ∧
      Simulates gen (events.foldl failures k) n' d' := by
  induction events generalizing k n d with
  | nil =>
    obtain rfl := Option.some.inj hr
    exact ⟨d, rfl, h⟩
  | cons e events ih =>
    obtain ⟨n₁, hs, hrest⟩ := runs_cons.mp hr
    obtain ⟨d₁, hd₁, hsim⟩ := h.step hs
    obtain ⟨d', hd', hsim'⟩ := ih hsim hrest
    refine ⟨d', ?_, hsim'⟩
    rw [meanings, runs_append, hd₁, Option.bind_some, ← buffers_of_step hs]
    exact hd'

/-- From the bytes received to the bytes sent: in every run of the server on one thread,
from a clean store with any accounts, the machine goes along with the requests that the
reads amount to by the verdict of the read loop, the store represents its state, and the
writes of each client go through the packets of the machine's responses to it, in order,
each once or several times in a row. Once all writes have completed without an error, no
packet is missing. -/
theorem node_refines_dialogue (gen : Generated) (wild : PacketCall → Bytes) (redis : Redis)
    (accounts : Bytes → Option Account) (hredis : Recorded redis accounts)
    (buffers : Token → RecvBuffer) (events : List Event) (n : Node)
    (hr : runs (step gen wild) (Node.initial redis buffers) events = some n) :
    ∃ d, runs (Dialogue.step gen) (Dialogue.initial accounts)
        (meanings gen wild buffers events) = some d ∧
      Represents n.world d.machine ∧
      ∀ t, let packets := (d.sent t).map (Response.packet gen)
        let failed := events.foldl failures (fun _ => 0) t
        Sends packets failed (n.writers t) ∧
        (failed = 0 → (n.writers t).outstanding = [] →
          Repeats packets ((n.writers t).started.map Buffer.data)) := by
  obtain ⟨d, hd, hsim⟩ := simulates_run (simulates_initial hredis buffers) hr
  refine ⟨d, hd, hsim.represents, fun t => ⟨hsim.sends t, fun hfailed hout => ?_⟩⟩
  have hsends := hsim.sends t
  rw [hfailed] at hsends
  exact hsends.all_written hout

/-- A client registers and logs in before the first response has been written. -/
def registerAndLogin : List Event :=
  [.accept 1 0 zeroBuffer, .read 1 (packetRead 1 sampleRegister) 3,
    .read 1 (packetRead 3 sampleLogin) 5]

theorem node_refines_dialogue_login : ∃ n d,
    runs (step wireGenerated PacketCall.payload) (Node.initial Store.empty fun _ => zeroBuffer)
      registerAndLogin = some n ∧
    runs (Dialogue.step wireGenerated) (Dialogue.initial fun _ => none)
      (meanings wireGenerated PacketCall.payload (fun _ => zeroBuffer) registerAndLogin) = some d ∧
    Represents n.world d.machine ∧
    Sends ((d.sent 1).map (Response.packet wireGenerated)) 0 (n.writers 1) ∧
    (n.writers 1).started.length = 2 := by
  have hrun : (runs (step wireGenerated PacketCall.payload)
      (Node.initial Store.empty fun _ => zeroBuffer) registerAndLogin).map
        (fun n => (n.writers 1).started.length) = some 2 := by
    decide +kernel
  obtain ⟨n, hn, hlen⟩ := Option.map_eq_some_iff.mp hrun
  obtain ⟨d, hd, hrep, hsends⟩ := node_refines_dialogue wireGenerated PacketCall.payload
    Store.empty _ recorded_empty _ _ n hn
  exact ⟨n, d, hn, hd, hrep, (hsends 1).1, hlen⟩

/-- In every state that is reached, the events that can happen are handled to the end when
no command of the store throws: whatever bytes a connected client sends, no handler runs
into an empty optional. -/
theorem handled_iff_enabled (gen : Generated) (wild : PacketCall → Bytes) (redis : Redis)
    (accounts : Bytes → Option Account) (hredis : Recorded redis accounts)
    (buffers : Token → RecvBuffer) (events : List Event) (n : Node)
    (hr : runs (step gen wild) (Node.initial redis buffers) events = some n) (e : Event) :
    (step gen wild n e).isSome = true ↔ Enabled n e := by
  obtain ⟨d, -, hsim⟩ := simulates_run (simulates_initial hredis buffers) hr
  cases e with
  | accept t now recvBuffer =>
    simp [step, Enabled, run_acceptClient gen t n.world now hsim.attached.unlocked]
  | read t r now =>
    constructor
    · intro hs
      by_contra hn
      have ht : t ∉ n.world.connectedClients := hn
      have hreads := hsim.attached.reads t
      rw [if_neg ht] at hreads
      simp [step, run_readHandler_none _ r now hreads] at hs
    · intro ht
      obtain ⟨n', d', hs, -⟩ := step_read_exists wild hsim ht r now
      rw [hs]
      rfl
  | written t buffer failed =>
    cases failed with
    | false => simp [step, Enabled, deliver_completed]
    | true => simp [step, Enabled, WriteQueue.exec]

theorem handled_iff_enabled_login : ∃ n,
    runs (step wireGenerated PacketCall.payload) (Node.initial Store.empty fun _ => zeroBuffer)
      registerAndLogin = some n ∧
    1 ∈ n.world.connectedClients ∧
    ∀ r now, (step wireGenerated PacketCall.payload n (.read 1 r now)).isSome = true := by
  have hrun : (runs (step wireGenerated PacketCall.payload)
      (Node.initial Store.empty fun _ => zeroBuffer) registerAndLogin).map
        (fun n => decide (1 ∈ n.world.connectedClients)) = some true := by
    decide +kernel
  obtain ⟨n, hn, hmem⟩ := Option.map_eq_some_iff.mp hrun
  have ht : 1 ∈ n.world.connectedClients := of_decide_eq_true hmem
  exact ⟨n, hn, ht, fun r now => (handled_iff_enabled wireGenerated PacketCall.payload
    Store.empty _ recorded_empty _ _ n hn (.read 1 r now)).mpr ht⟩

end Runs

end IsolationServer.EndToEnd
