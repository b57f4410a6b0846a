import IsolationServer.Places
import IsolationServer.Serialisability

/-!
# Overlapping handlers of different accounts

Clients connect, send requests and disconnect at any time, and the commands of their
handlers interleave. As long as no handler starts for an account that another one is
busy with, every run does what the abstract machine does with the same events, in the
order in which their handlers start.
-/
namespace IsolationServer.Linearization
open Authentication CommandPrograms HashStore Places Runs Separation Serialisability

/-! ## The places of the server -/

inductive Place where
  | key (key : Bytes)
  | socket (t : Token)
  | connection (t : Token)
  | responses (t : Token)

abbrev Content : Place → Type
  | .key _ => Bytes → Option Bytes
  | .socket _ => Socket
  | .connection _ => Bool
  | .responses _ => List Response

def look : (x : Place) → World → Content x
  | .key key, w => w.redis.hashGet key
  | .socket t, w => w.sockets t
  | .connection t, w => decide (t ∈ w.connectedClients)
  | .responses t, w => Serialisability.responses w t

def touches : Command → Set Place
  | .existsKey key => {.key key}
  | .hashGet key _ => {.key key}
  | .hashSet key _ _ => {.key key}
  | .del key => {.key key}
  | .hashDel key _ => {.key key}
  | .persist key => {.key key}
  | .construct t => {.socket t}
  | .readAsync t => {.socket t}
  | .completeRead t => {.socket t}
  | .stop t => {.socket t}
  | .setLoginKey t _ => {.socket t}
  | .setPacketHandler t _ _ => {.socket t}
  | .getPacketHandler t _ => {.socket t}
  | .setErrorHandler t _ => {.socket t}
  | .getErrorHandlers t => {.socket t}
  | .postWrite t _ => {.responses t}
  | .insertClient t => {.connection t}
  | .eraseClient t => {.connection t}
  | .lock _ => ∅
  | .unlock _ => ∅

/-- The places of a handler of client `t` that is about `account`. -/
def footprint (t : Token) (account : Option Bytes) : Set Place := fun x =>
  match x with
  | .key key => Owns (fun _ => account) t key
  | .socket u => u = t
  | .connection u => u = t
  | .responses u => u = t

section Footprints

variable {gen : Generated} {w w' v v' : World} {t u : Token} {c : Command} {r r' : Reply c}
  {x : Place} {o o' : Option Bytes}

theorem look_frame (h : exec c w = some (r, w')) (hx : x ∉ touches c) : look x w' = look x w := by
  cases executed_of_exec h with
  | hashSet key f y =>
    cases x with
    | key k =>
      have hk : k ≠ key := fun hk => hx (congrArg Place.key hk)
      funext g
      simp [look, Store.hashGet_hashSet, hk]
    | _ => rfl
  | del key =>
    cases x with
    | key k =>
      have hk : k ≠ key := fun hk => hx (congrArg Place.key hk)
      funext g
      simp [look, Store.hashGet_del, hk]
    | _ => rfl
  | hashDel key f =>
    cases x with
    | key k =>
      have hk : k ≠ key := fun hk => hx (congrArg Place.key hk)
      funext g
      simp [look, Store.hashGet_hashDel, hk]
    | _ => rfl
  | postWrite u response =>
    cases x with
    | responses t =>
      have ht : u ≠ t := fun ht => hx (congrArg Place.responses ht.symm)
      simp [look, responses_post, ht]
    | _ => rfl
  | insertClient u =>
    cases x with
    | connection t =>
      have ht : t ≠ u := fun ht => hx (congrArg Place.connection ht)
      simp [look, ht]
    | _ => rfl
  | eraseClient u =>
    cases x with
    | connection t =>
      have ht : t ≠ u := fun ht => hx (congrArg Place.connection ht)
      simp [look, ht]
    | _ => rfl
  | construct u | readAsync u | completeRead u | stop u | setLoginKey u | setPacketHandler u
  | setErrorHandler u =>
    cases x with
    | socket t =>
      have ht : t ≠ u := fun ht => hx (congrArg Place.socket ht)
      simp [look, World.setSocket, ht]
    | _ => rfl
  | lock | unlock => cases x <;> rfl
  | _ => rfl

theorem look_same (hagree : ∀ x ∈ touches c, look x w = look x v)
    (hw : exec c w = some (r, w')) (hv : exec c v = some (r', v')) :
    r = r' ∧ ∀ x ∈ touches c, look x w' = look x v' := by
  cases executed_of_exec hw with
  | existsKey key =>
    cases executed_of_exec hv
    have hkey : w.redis.hashGet key = v.redis.hashGet key := hagree (.key key) rfl
    refine ⟨?_, hagree⟩
    apply Bool.eq_iff_iff.mpr
    simp only [Store.existsKey_iff, hkey]
  | hashGet key f =>
    cases executed_of_exec hv
    exact ⟨congrFun (hagree (.key key) rfl) f, hagree⟩
  | hashSet key f y =>
    cases executed_of_exec hv
    have hkey : w.redis.hashGet key = v.redis.hashGet key := hagree (.key key) rfl
    refine ⟨rfl, ?_⟩
    rintro x rfl
    funext g
    simp only [look, Store.hashGet_hashSet, hkey]
  | del key =>
    cases executed_of_exec hv
    have hkey : w.redis.hashGet key = v.redis.hashGet key := hagree (.key key) rfl
    refine ⟨rfl, ?_⟩
    rintro x rfl
    funext g
    simp only [look, Store.hashGet_del, hkey]
  | hashDel key f =>
    cases executed_of_exec hv
    have hkey : w.redis.hashGet key = v.redis.hashGet key := hagree (.key key) rfl
    refine ⟨rfl, ?_⟩
    rintro x rfl
    funext g
    simp only [look, Store.hashGet_hashDel, hkey]
  | construct u =>
    cases executed_of_exec hv
    refine ⟨rfl, ?_⟩
    rintro x rfl
    simp [look, World.setSocket]
  | readAsync u | completeRead u | stop u | setLoginKey u | setPacketHandler u
  | setErrorHandler u =>
    cases executed_of_exec hv
    have hsocket : w.sockets u = v.sockets u := hagree (.socket u) rfl
    refine ⟨rfl, ?_⟩
    rintro x rfl
    simp [look, World.setSocket, hsocket]
  | getPacketHandler u type =>
    cases executed_of_exec hv
    have hsocket : w.sockets u = v.sockets u := hagree (.socket u) rfl
    exact ⟨by rw [hsocket], hagree⟩
  | getErrorHandlers u =>
    cases executed_of_exec hv
    have hsocket : w.sockets u = v.sockets u := hagree (.socket u) rfl
    exact ⟨by rw [hsocket], hagree⟩
  | postWrite u response =>
    cases executed_of_exec hv
    have hresp : responses w u = responses v u := hagree (.responses u) rfl
    refine ⟨rfl, ?_⟩
    rintro x rfl
    simp only [look, responses_post, hresp]
  | insertClient u | eraseClient u =>
    cases executed_of_exec hv
    refine ⟨rfl, ?_⟩
    rintro x rfl
    simp [look]
  | persist =>
    cases executed_of_exec hv
    exact ⟨rfl, hagree⟩
  | lock | unlock =>
    cases executed_of_exec hv
    exact ⟨rfl, fun x hx => hx.elim⟩

/-- The commands of the server depend on and change their own places only. -/
theorem local_exec : Local exec look touches where
  same := look_same
  frame := look_frame

theorem touches_of_own (h : OwnCommand (fun _ => o) t c) : touches c ⊆ footprint t o := by
  intro x hx
  cases c with
  | existsKey | hashGet | hashSet | del | hashDel | persist =>
    obtain rfl := hx
    exact h
  | stop | setLoginKey | postWrite | eraseClient =>
    obtain rfl := hx
    exact h
  | lock | unlock => exact hx.elim
  | _ => exact h.elim

theorem touches_of_accept (h : AcceptCommand t c) : touches c ⊆ footprint t o := by
  intro x hx
  cases c with
  | construct | readAsync | insertClient | setPacketHandler | setErrorHandler =>
    obtain rfl := hx
    exact h
  | hashSet =>
    obtain rfl := hx
    exact .inl h.1
  | lock | unlock => exact hx.elim
  | _ => exact h.elim

/-- Every handler stays in its footprint. -/
theorem path_footprint (gen : Generated) (w : World) (t : Token) (a : Activity) :
    Path exec (fun c => touches c ⊆ footprint t (account gen w t a)) (a.body gen t) w := by
  by_cases ha : ∃ now, a = .accept now
  · obtain ⟨now, rfl⟩ := ha
    exact path_of_issues ((issues_acceptClient gen t now).mono fun _ => touches_of_accept)
  · have hown : Path exec (OwnCommand (fun _ => account gen w t a) t) (a.body gen t) w :=
      path_body (not_exists.mp ha) rfl
    exact hown.mono fun _ => touches_of_own

/-- Different clients with different accounts have disjoint footprints. -/
theorem footprint_disjoint (htu : t ≠ u) (hab : ∀ id, o = some id → o' ≠ some id)
    (ht : x ∈ footprint t o) : x ∉ footprint u o' := by
  intro hu
  cases x with
  | key key =>
    rcases ht with rfl | ⟨id, hid, rfl | rfl⟩
    · rcases hu with h | ⟨j, -, h | h⟩
      · exact htu (by simpa using h)
      · simp at h
      · simp at h
    · rcases hu with h | ⟨j, hj, h | h⟩
      · simp at h
      · exact hab id hid (by rwa [idKey_inj.mp h])
      · simp at h
    · rcases hu with h | ⟨j, hj, h | h⟩
      · simp at h
      · simp at h
      · exact hab id hid (by rwa [loginedKey_inj.mp h])
  | _ => exact htu (Eq.trans (Eq.symm ht) hu)

end Footprints

/-! ## Runs in which the accounts of busy handlers differ -/

/-- The server, with the clients whose handlers are busy and the account that each
handler was about when it started. -/
structure Tracked where
  pool : ServerPool
  busy : Finset Token
  accounts : Token → Option Bytes

def Tracked.idle (redis : Redis) : Tracked where
  pool := Pool.idle (World.initial redis)
  busy := ∅
  accounts _ := none

def track (gen : Generated) (s : Tracked) (act : Action Token Activity) : Option Tracked :=
  ((server gen).step s.pool act).map fun p =>
    match act with
    | .start t a =>
      { pool := p
        busy := insert t s.busy
        accounts := Function.update s.accounts t (account gen s.pool.shared t a) }
    | .advance t =>
      { pool := p
        busy := if (p.threads t).isNone then s.busy.erase t else s.busy
        accounts := s.accounts }

/-- The side condition on a run: no handler starts for an account that another one is
busy with. -/
def AccountsApart (gen : Generated) (s : Tracked) : Action Token Activity → Prop
  | .start t a => account gen s.pool.shared t a = none ∨
      ∀ u ∈ s.busy, s.accounts u ≠ account gen s.pool.shared t a
  | .advance _ => True

instance (gen : Generated) (s : Tracked) : ∀ act, Decidable (AccountsApart gen s act)
  | .start t a =>
    -- over the busy clients, not over all tokens
    have : Decidable (∀ u ∈ s.busy, s.accounts u ≠ account gen s.pool.shared t a) :=
      Finset.decidableDforallFinset
    inferInstanceAs (Decidable (_ ∨ _))
  | .advance _ => .isTrue trivial

/-- The events, in the order in which their handlers start. -/
def starts : List (Action Token Activity) → List (Token × Activity)
  | [] => []
  | .start t a :: acts => (t, a) :: starts acts
  | .advance _ :: acts => starts acts

/-- Client `t` and what it has been answered. -/
structure SameClient (w v : World) (t : Token) : Prop where
  hash : ∀ f, w.redis.hashGet (clientKey t) f = v.redis.hashGet (clientKey t) f
  socket : w.sockets t = v.sockets t
  connected : t ∈ w.connectedClients ↔ t ∈ v.connectedClients
  responses : responses w t = responses v t

/-- What the busy handlers hold. -/
def holding (s : Tracked) (t : Token) : Set Place :=
  if t ∈ s.busy then footprint t (s.accounts t) else ∅

/-- The threads are on their way to the state `v` that the server reaches by one handler
after another, and that represents `M`. -/
structure Ordered (s : Tracked) (v : World) (M : Machine) : Prop where
  busy : ∀ t, t ∈ s.busy ↔ s.pool.threads t ≠ none
  serial : Serial exec look touches (holding s) v s.pool
  represents : Represents v M

section Runs

variable {gen : Generated} {s s' : Tracked} {v : World} {M : Machine} {t u : Token} {a : Activity}

/-- A server at which no handler is busy. -/
theorem ordered_fresh {p : ServerPool} (hidle : ∀ t, p.threads t = none)
    (hrep : Represents p.shared M) : Ordered ⟨p, ∅, fun _ => none⟩ p.shared M where
  busy t := by simp [hidle t]
  serial := serial_idle hidle
  represents := hrep

/-- Nobody else holds what belongs to an idle client. -/
theorem not_holding (ht : t ∉ s.busy) {x : Place} (hx : x ∈ footprint t none) (u : Token) :
    x ∉ holding s u := by
  unfold holding
  split_ifs with hu
  · have htu : t ≠ u := by
      rintro rfl
      exact ht hu
    exact footprint_disjoint htu (fun id hid => by cases hid) hx
  · exact fun h => h

theorem Ordered.look_eq (h : Ordered s v M) (ht : s.pool.threads t = none) {x : Place}
    (hx : x ∈ footprint t none) : look x s.pool.shared = look x v :=
  h.serial.look_eq (not_holding (fun hb => (h.busy t).mp hb ht) hx)

/-- An idle client is connected in the one state just when it is in the other. -/
theorem Ordered.allows_eq (h : Ordered s v M) (ht : s.pool.threads t = none) (a : Activity) :
    a.allows s.pool.shared t = a.allows v t := by
  have hconn : decide (t ∈ s.pool.shared.connectedClients) = decide (t ∈ v.connectedClients) :=
    h.look_eq ht (x := .connection t) rfl
  cases a <;> simpa [Activity.allows] using hconn

theorem Ordered.account_eq (h : Ordered s v M) (ht : s.pool.threads t = none) (a : Activity) :
    account gen s.pool.shared t a = account gen v t a := by
  have hkey : s.pool.shared.redis.hashGet (clientKey t) = v.redis.hashGet (clientKey t) :=
    h.look_eq ht (x := .key (clientKey t)) (.inl rfl)
  cases a <;> simp [account, hkey]

theorem holding_start {p : ServerPool} {o : Option Bytes} :
    holding ⟨p, insert t s.busy, Function.update s.accounts t o⟩ =
      Function.update (holding s) t (footprint t o) := by
  funext u
  by_cases hu : u = t
  · subst hu
    simp [holding]
  · simp [holding, hu]

theorem holding_erase {p : ServerPool} :
    holding ⟨p, s.busy.erase t, s.accounts⟩ = Function.update (holding s) t ∅ := by
  funext u
  by_cases hu : u = t
  · subst hu
    simp [holding]
  · simp [holding, hu]

theorem track_start (hs : track gen s (.start t a) = some s') :
    s.pool.threads t = none ∧ a.allows s.pool.shared t = true ∧
      s' = ⟨⟨s.pool.shared, Function.update s.pool.threads t (some (a, a.body gen t)),
          s.pool.trace⟩,
        insert t s.busy, Function.update s.accounts t (account gen s.pool.shared t a)⟩ := by
  obtain ⟨p, hp, rfl⟩ := Option.map_eq_some_iff.mp hs
  rcases System.step_cases hp with ⟨i, b, hact, hidle, hallow, rfl⟩ | ⟨i, b, x, hact, -⟩ |
    ⟨i, b, c, k, r, w, hact, -⟩
  · obtain ⟨rfl, rfl⟩ := Action.start.inj hact
    exact ⟨hidle, hallow, rfl⟩
  · cases hact
  · cases hact

/-- A handler that starts comes last in the order. -/
theorem Ordered.start (h : Ordered s v M) (hok : AccountsApart gen s (.start t a))
    (hs : track gen s (.start t a) = some s') :
    ∃ v' M', serve gen v (t, a) = some v' ∧ M.step gen (t, a) = some M' ∧ Ordered s' v' M' := by
  obtain ⟨hidle, hallow, rfl⟩ := track_start hs
  have hacct : account gen s.pool.shared t a = account gen v t a := h.account_eq hidle a
  have hallow' : a.allows v t = true := (h.allows_eq hidle a).symm.trans hallow
  obtain ⟨v', hv', hrep⟩ := h.represents.handle gen hallow'
  have hserve : serve gen v (t, a) = some v' := by
    rw [serve_eq_handle gen t v h.represents.unlocked hallow', hv']
  have hrun : Program.run exec (a.body gen t) v = some ((), v') := by
    rw [run_body gen t v a h.represents.unlocked, hv', Option.map_some]
  have hfree : ∀ x ∈ footprint t (account gen v t a), ∀ u, x ∉ holding s u := by
    intro x hx u
    unfold holding
    split_ifs with hu
    · have htu : t ≠ u := by
        rintro rfl
        exact (h.busy t).mp hu hidle
      refine footprint_disjoint htu (fun id hid hid' => ?_) hx
      rcases hok with hnone | hapart
      · rw [hacct, hid] at hnone
        cases hnone
      · exact hapart u hu (hid'.trans (hid.symm.trans hacct.symm))
    · exact fun hmem => hmem
  refine ⟨v', _, hserve, h.represents.step_eq hallow', fun u => ?_, ?_, hrep⟩
  · by_cases hu : u = t
    · simp [hu]
    · simp [hu, h.busy u]
  · rw [holding_start, hacct]
    exact h.serial.start local_exec hidle hfree (path_footprint gen v t a) hrun

theorem Ordered.advance (h : Ordered s v M) (hs : track gen s (.advance t) = some s') :
    Ordered s' v M := by
  obtain ⟨p, hp, rfl⟩ := Option.map_eq_some_iff.mp hs
  have hserial := h.serial.advance (M := server gen) local_exec hp
  have hother : ∀ u, u ≠ t → p.threads u = s.pool.threads u :=
    fun u hu => System.threads_of_advance hp hu
  have hbusy : t ∈ s.busy := by
    rw [h.busy t]
    intro hidle
    simp [System.step, hidle] at hp
  by_cases hidle : p.threads t = none
  · simp only [hidle, Option.isNone_none, if_true] at hserial ⊢
    refine ⟨fun u => ?_, by rwa [holding_erase], h.represents⟩
    by_cases hu : u = t
    · simp [hu, hidle]
    · simp [hu, h.busy u, hother u hu]
  · rw [if_neg hidle] at hserial
    simp only [Option.isNone_iff_eq_none, hidle, if_false]
    refine ⟨fun u => ?_, hserial, h.represents⟩
    by_cases hu : u = t
    · simp [hu, hidle, hbusy]
    · simp [h.busy u, hother u hu]

/-- Along a run, the server and the machine take the events one by one. -/
theorem Ordered.run {acts : List (Action Token Activity)} (h : Ordered s v M)
    (hok : Along (track gen) (AccountsApart gen) s acts) (hr : runs (track gen) s acts = some s') :
    ∃ v' M', runs (serve gen) v (starts acts) = some v' ∧
      runs (Machine.step gen) M (starts acts) = some M' ∧ Ordered s' v' M' := by
  induction acts generalizing s v M with
  | nil =>
    obtain rfl := Option.some.inj hr
    exact ⟨v, M, rfl, rfl, h⟩
  | cons act acts ih =>
    obtain ⟨s₁, hs, hrest⟩ := runs_cons.mp hr
    have hok₁ := hok.2 s₁ hs
    cases act with
    | start t a =>
      obtain ⟨v₁, M₁, hv, hM, h₁⟩ := h.start hok.1 hs
      obtain ⟨v', M', hv', hM', h'⟩ := ih h₁ hok₁ hrest
      exact ⟨v', M', runs_cons.mpr ⟨v₁, hv, hv'⟩, runs_cons.mpr ⟨M₁, hM, hM'⟩, h'⟩
    | advance t => exact ih (h.advance hs) hok₁ hrest

/-- Every run of the server can be tracked. -/
theorem exists_track {acts : List (Action Token Activity)} {p : ServerPool}
    (hr : runs (server gen).step s.pool acts = some p) :
    ∃ s', runs (track gen) s acts = some s' ∧ s'.pool = p := by
  induction acts generalizing s with
  | nil => exact ⟨s, rfl, Option.some.inj hr⟩
  | cons act acts ih =>
    obtain ⟨p₁, hp, hrest⟩ := runs_cons.mp hr
    obtain ⟨s₁, hs, rfl⟩ : ∃ s₁, track gen s act = some s₁ ∧ s₁.pool = p₁ := by
      rw [track, hp, Option.map_some]
      cases act <;> exact ⟨_, rfl, rfl⟩
    obtain ⟨s', hs', hpool⟩ := ih hrest
    exact ⟨s', runs_cons.mpr ⟨s₁, hs, hs'⟩, hpool⟩

theorem Ordered.sameClient (h : Ordered s v M) (ht : s.pool.threads t = none) :
    SameClient s.pool.shared v t where
  hash f := congrFun (h.look_eq ht (x := .key (clientKey t)) (.inl rfl)) f
  socket := h.look_eq ht (x := .socket t) rfl
  connected := decide_eq_decide.mp (h.look_eq ht (x := .connection t) rfl)
  responses := h.look_eq ht (x := .responses t) rfl

/-- Where all handlers have returned, the outcome is that of the order. -/
theorem Ordered.sameOutcome (h : Ordered s v M) (hidle : ∀ t, s.pool.threads t = none) :
    SameOutcome s.pool.shared v := by
  have hlook : ∀ x : Place, look x s.pool.shared = look x v := by
    intro x
    refine h.serial.look_eq fun t hx => ?_
    rw [h.serial.idle t (hidle t)] at hx
    exact hx
  refine ⟨Store.ext_hashGet fun key f => congrFun (hlook (.key key)) f, ?_, fun t => ?_,
    fun t => hlook (.responses t)⟩
  · ext t
    exact decide_eq_decide.mp (hlook (.connection t))
  · exact congrArg Socket.loginKey (hlook (.socket t))

/-- Overlapping handlers of different accounts are linearisable: in every run in which no
handler starts for an account that another one is busy with, from a clean store with any
accounts, the server that handles the same events one after another, in the order in which
their handlers start, and the abstract machine both go through all of them. Every client
that is not being served has the hash, the socket, the connection and the responses that it
has there, and when nobody is being served the whole outcome is the same. -/
theorem overlapping_handlers_linearise (gen : Generated) (redis : Redis)
    (accounts : Bytes → Option Account) (hredis : Recorded redis accounts)
    (acts : List (Action Token Activity)) (p : ServerPool)
    (hr : runs (server gen).step (Pool.idle (World.initial redis)) acts = some p)
    (hok : Along (track gen) (AccountsApart gen) (Tracked.idle redis) acts) :
    ∃ v M, runs (serve gen) (World.initial redis) (starts acts) = some v ∧
      runs (Machine.step gen) (Machine.withAccounts accounts) (starts acts) = some M ∧
      Represents v M ∧
      (∀ t, p.threads t = none → SameClient p.shared v t) ∧
      ((∀ t, p.threads t = none) → SameOutcome p.shared v) := by
  obtain ⟨s, hs, rfl⟩ := exists_track (s := Tracked.idle redis) hr
  have hfresh : Ordered (Tracked.idle redis) (World.initial redis)
      (Machine.withAccounts accounts) := ordered_fresh (fun _ => rfl) hredis.represents
  obtain ⟨v, M, hv, hM, h⟩ := hfresh.run hok hs
  exact ⟨v, M, hv, hM, h.represents, fun t ht => h.sameClient ht, h.sameOutcome⟩

/-- Client 1 logs in while client 2 registers another account. -/
def loginWhileRegistering : List (Action Token Activity) := List.flatten
  [twoClients, [.start 1 (.login sampleLogin 5)], advances 1 3,
    [.start 2 (.register otherRegister)], advances 2 4, advances 1 6, advances 2 2]

theorem overlapping_handlers_linearise_login : ∃ p v,
    runs (server wireGenerated).step (Pool.idle (World.initial Store.empty))
      loginWhileRegistering = some p ∧
    runs (serve wireGenerated) (World.initial Store.empty) (starts loginWhileRegistering) =
      some v ∧
    responses p.shared 1 = responses v 1 ∧ responses p.shared 2 = responses v 2 ∧
    responses p.shared 1 =
      [.registerAccount ⟨true, str "ok"⟩, .login ⟨true, str "ok"⟩] := by
  have hrun : (runs (server wireGenerated).step (Pool.idle (World.initial Store.empty))
      loginWhileRegistering).map (fun p =>
        ((p.threads 1).isNone, (p.threads 2).isNone, responses p.shared 1)) =
      some (true, true, [.registerAccount ⟨true, str "ok"⟩, .login ⟨true, str "ok"⟩]) := by
    decide +kernel
  have hok : Along (track wireGenerated) (AccountsApart wireGenerated)
      (Tracked.idle Store.empty) loginWhileRegistering := by
    decide +kernel
  obtain ⟨p, hp, hobs⟩ := Option.map_eq_some_iff.mp hrun
  simp only [Prod.mk.injEq, Option.isNone_iff_eq_none] at hobs
  obtain ⟨h1, h2, hresp⟩ := hobs
  obtain ⟨v, M, hv, -, -, hclients, -⟩ :=
    overlapping_handlers_linearise wireGenerated Store.empty _ recorded_empty
      loginWhileRegistering p hp hok
  exact ⟨p, v, hp, hv, (hclients 1 h1).responses, (hclients 2 h2).responses, hresp⟩

end Runs

end IsolationServer.Linearization
