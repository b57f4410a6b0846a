import IsolationServer.Assurance
import IsolationServer.CompleteAccounts
import IsolationServer.Footprints
import IsolationServer.PasswordHash

/-!
# Who gets to see an account

Every field of an account, every session and every response can be traced back to
requests: a field to a registration that passed the checks, a session to a login of
the same connection with the password of the account, and the data in a response to
the account of such a login. This holds for any number of clients whose commands
interleave in any order.
-/
namespace IsolationServer.Credentials
open CommandPrograms CompleteAccounts HashStore Runs

/-- The account that client `t` is logged in to. -/
def session (w : World) (t : Token) : Option Bytes := w.redis.hashGet (clientKey t) (str "loginId")

/-! ## A connection begins without a session -/

/-- Where the handler of a client stands: it rests or lets the client in, it serves
a connected client, or it has removed that client from the store. -/
inductive Place where
  | outside
  | inside
  | removed

/-- Commands that write no session and take no client out of `_connectedClients`. -/
def KeepsVisits : Command → Prop
  | .hashSet key field _ => (∀ t, key ≠ clientKey t) ∨ field ≠ str "loginId"
  | .eraseClient _ => False
  | _ => True

/-- The commands of client `t` between its connection and its removal. -/
inductive Visit (t : Token) : Place → (c : Command) → Reply c → Place → Prop where
  | keep (x : Place) (c : Command) (r : Reply c) : KeepsVisits c → Visit t x c r x
  | enter (id : Bytes) :
      Visit t .inside (.hashSet (clientKey t) (str "loginId") id) () .inside
  | remove : Visit t .inside (.del (clientKey t)) () .removed
  | erase : Visit t .removed (.eraseClient t) () .removed

/-- Where a handler starts. -/
def Place.start : Activity → Place
  | .accept _ => .outside
  | _ => .inside

/-- A handler may end anywhere. -/
abbrev Anywhere {α : Type} : Option α → Place → Prop := fun _ _ => True

section Visits

variable {gen : Generated} {t : Token}

theorem keeps_of_logout {c : Command} (h : LogoutCommand t c) : KeepsVisits c := by
  cases c <;> first | exact h.elim | trivial

theorem conforms_login (data : Bytes) (now : ℕ) :
    Conforms (Visit t) Anywhere .inside (handleRequestLogin gen t data now) := by
  refine Issues.conforms (Q := LoginCommand t) ?_ (fun _ => trivial) (issues_login gen t data now)
  intro c r hc
  cases c with
  | hashSet key field value =>
    rcases hc with ⟨rfl, rfl⟩ | ⟨id, rfl⟩
    · exact .enter value
    · exact .keep _ _ _ (.inl fun u => by simp)
  | _ => first | exact hc.elim | exact .keep _ _ _ trivial

theorem conforms_disconnect : Conforms (Visit t) Anywhere .inside (handleDisconnect t) := by
  have hlogout : Conforms (Visit t) (fun _ y => y = .inside) .inside (logoutClient t) := by
    refine Issues.conforms ?_ ?_ (issues_logoutClient t)
    · exact fun c r hc => .keep _ _ _ (keeps_of_logout hc)
    · exact fun _ => rfl
  refine hlogout.bind (fun _ _ => trivial) fun _ y hy => ?_
  subst hy
  refine fun _ => ⟨.inside, .keep _ _ _ trivial, fun _ => ⟨.inside, .keep _ _ _ trivial, ?_⟩⟩
  refine fun _ => ⟨.removed, .remove, fun _ => ⟨.removed, .erase, ?_⟩⟩
  exact fun _ => ⟨.removed, .keep _ _ _ trivial, trivial⟩

theorem conforms_body (a : Activity) :
    Conforms (Visit t) Anywhere (Place.start a) (a.body gen t) := by
  have hkeep : ∀ {Q : Command → Prop} {x : Place} {h : Handler Unit}, Issues Q h →
      (∀ c, Q c → KeepsVisits c) → Conforms (Visit t) Anywhere x h := fun hq hk =>
    Issues.conforms (fun c r hc => .keep _ _ _ (hk c hc)) (fun _ => trivial) hq
  cases a with
  | accept now =>
    refine hkeep (issues_acceptClient gen t now) fun c hc => ?_
    cases c with
    | hashSet key field value =>
      obtain ⟨-, rfl⟩ := hc
      exact .inr (by decide)
    | _ => first | exact hc.elim | trivial
  | register data =>
    refine hkeep (issues_creationAccount gen t data) fun c hc => ?_
    cases c with
    | hashSet key field value =>
      obtain ⟨id, rfl⟩ := hc
      exact .inl fun u => by simp
    | _ => first | exact hc.elim | trivial
  | login data now => exact conforms_login data now
  | playerData data =>
    refine hkeep (issues_playerData gen t data) fun c hc => ?_
    cases c <;> first | exact hc.elim | trivial
  | logout data => exact hkeep (issues_logout gen t data) fun c hc => keeps_of_logout hc
  | disconnect => exact conforms_disconnect

/-- A client inside is connected, and one that is not connected has no session. -/
structure Visited (w : World) (t : Token) (x : Place) : Prop where
  connected : x = .inside → t ∈ w.connectedClients
  removed : x = .removed → session w t = none
  vacant : t ∉ w.connectedClients → session w t = none

variable {c : Command} {r : Reply c} {w w' : World} {x y : Place}

theorem Visited.keep (h : Visited w t x) (hc : KeepsVisits c) (he : exec c w = some (r, w')) :
    Visited w' t x := by
  have hstays : t ∈ w.connectedClients → t ∈ w'.connectedClients := by
    cases executed_of_exec he with
    | insertClient u => exact Finset.mem_insert_of_mem
    | eraseClient u => exact hc.elim
    | _ => exact id
  have hnone : session w t = none → session w' t = none := by
    intro hs
    cases executed_of_exec he with
    | hashSet key field value =>
      have hother : ¬(clientKey t = key ∧ str "loginId" = field) := by
        rintro ⟨hk, hf⟩
        rcases hc with hc | hc
        · exact hc t hk.symm
        · exact hc hf.symm
      simpa [session, Store.hashGet_hashSet, hother] using hs
    | del key => simpa [session, Store.hashGet_del] using fun _ => hs
    | hashDel key field => simpa [session, Store.hashGet_hashDel] using fun _ => hs
    | _ => exact hs
  exact ⟨fun hx => hstays (h.connected hx), fun hx => hnone (h.removed hx),
    fun ht => hnone (h.vacant fun hin => ht (hstays hin))⟩

/-- The handler's own command. -/
theorem Visit.visited (hv : Visit t x c r y) (h : Visited w t x) (he : exec c w = some (r, w')) :
    Visited w' t y := by
  cases hv with
  | keep _ _ _ hc => exact h.keep hc he
  | enter id =>
    cases executed_of_exec he
    exact ⟨fun _ => h.connected rfl, by simp, fun ht => absurd (h.connected rfl) ht⟩
  | remove =>
    cases executed_of_exec he
    have hnone : session { w with redis := w.redis.del (clientKey t) } t = none := by
      simp [session, Store.hashGet_del]
    exact ⟨by simp, fun _ => hnone, fun _ => hnone⟩
  | erase =>
    cases executed_of_exec he
    exact ⟨by simp, fun _ => h.removed rfl, fun _ => h.removed rfl⟩

/-- A command of another client's handler. -/
theorem Visit.other {u : Token} {z : Place} (hv : Visit t x c r y) (h : Visited w u z)
    (hu : u ≠ t) (he : exec c w = some (r, w')) : Visited w' u z := by
  cases hv with
  | keep _ _ _ hc => exact h.keep hc he
  | enter id =>
    cases executed_of_exec he
    have hs : session { w with redis := w.redis.hashSet (clientKey t) (str "loginId") id } u =
        session w u := by
      simp [session, Store.hashGet_hashSet, hu]
    exact ⟨h.connected, fun hz => hs.trans (h.removed hz), fun hx => hs.trans (h.vacant hx)⟩
  | remove => exact h.keep (c := .del (clientKey t)) trivial he
  | erase =>
    cases executed_of_exec he
    refine ⟨fun hz => Finset.mem_erase_of_ne_of_mem hu (h.connected hz), h.removed, fun hx => ?_⟩
    exact h.vacant fun hin => hx (Finset.mem_erase_of_ne_of_mem hu hin)

/-- Every client has a place that its handler's remaining program starts from. -/
structure Visits (p : ServerPool) (place : Token → Place) : Prop where
  staged : Staged (fun t _ => Visit t) Anywhere .outside p place
  visited : ∀ t, Visited p.shared t (place t)

theorem session_initial {redis : Redis} (h : CleanStore redis) (t : Token) :
    session (World.initial redis) t = none :=
  (Store.existsKey_false_iff _ _).mp (h.clientKey t) _

theorem visits_idle {redis : Redis} (h : CleanStore redis) :
    Visits (Pool.idle (World.initial redis)) (fun _ => .outside) where
  staged := staged_idle _
  visited t := ⟨by simp, by simp, fun _ => session_initial h t⟩

variable {p p' : ServerPool} {place : Token → Place} {act : Action Token Activity}

theorem Visits.step (h : Visits p place) (hs : (server gen).step p act = some p') :
    ∃ place', Visits p' place' := by
  have hupdate : ∀ {t y}, Visited p'.shared t y →
      (∀ u, u ≠ t → Visited p'.shared u (place u)) →
      ∀ u, Visited p'.shared u (Function.update place t y u) := fun ht hu =>
    (Function.forall_update_iff place fun u y => Visited p'.shared u y).mpr ⟨ht, hu⟩
  rcases h.staged.step_from (fun _ a => Place.start a) (fun t a _ => conforms_body a) hs with
    ⟨t, a, -, -, ha, hw, -, -, hst⟩ | ⟨t, -, -, hw, -, -, hst⟩ |
    ⟨t, a, c, k, r, x, -, -, he, hδ, -, -, hst⟩
  · refine ⟨_, hst, hupdate ⟨fun hx => ?_, fun hx => ?_, ?_⟩ fun u _ => hw ▸ h.visited u⟩
    · rw [hw]
      cases a <;> first | exact of_decide_eq_true ha | cases hx
    · cases a <;> cases hx
    · exact hw ▸ (h.visited t).vacant
  · exact ⟨_, hst,
      hupdate ⟨by simp, by simp, hw ▸ (h.visited t).vacant⟩ fun u _ => hw ▸ h.visited u⟩
  · exact ⟨_, hst, hupdate (hδ.visited (h.visited t) he) fun u hu => hδ.other (h.visited u) hu he⟩

/-- A client that is not connected has no session. -/
theorem session_of_not_connected {redis : Redis} (hclean : CleanStore redis)
    {acts : List (Action Token Activity)}
    (hr : runs (server gen).step (Pool.idle (World.initial redis)) acts = some p)
    (ht : t ∉ p.shared.connectedClients) : session p.shared t = none := by
  obtain ⟨place, h⟩ := invariant (I := fun q => ∃ place, Visits q place)
    (fun _ _ _ ⟨_, hq⟩ hs => hq.step hs) ⟨_, visits_idle hclean⟩ hr
  exact (h.visited t).vacant ht

end Visits

/-! ## Where accounts, sessions and responses come from -/

/-- Client `t` has sent the registration `m`, and it passes the length checks. -/
def Requested (gen : Generated) (acts : List (Action Token Activity)) (t : Token)
    (m : PMRequestRegisterAccount) : Prop :=
  ∃ data, .start t (.register data) ∈ acts ∧ gen.parseRegisterAccount data = some m ∧
    2 ≤ m.id.length ∧ 2 ≤ m.password.length ∧ 2 ≤ m.nickname.length

/-- The field `f` of the account `id` has been given the value `v`, before the run
or by a registration in it. -/
inductive Field (gen : Generated) (redis : Redis) (acts : List (Action Token Activity)) :
    Bytes → Bytes → Bytes → Prop where
  | initial (id f v : Bytes) : redis.hashGet (idKey id) f = some v → Field gen redis acts id f v
  | registered (t : Token) (m : PMRequestRegisterAccount) (f v : Bytes) :
      Requested gen acts t m → (f, v) ∈ accountWrites gen m → Field gen redis acts m.id f v

/-- What the response to a request may tell its client, where `auth` are the accounts
that the client may see. -/
inductive Authorised (gen : Generated) (redis : Redis) (acts : List (Action Token Activity))
    (auth : Bytes → Prop) : Activity → Response → Prop where
  | registered (data : Bytes) (m : PMRequestRegisterAccount) :
      gen.parseRegisterAccount data = some m → 2 ≤ m.id.length → 2 ≤ m.password.length →
      2 ≤ m.nickname.length →
      Authorised gen redis acts auth (.register data) (.registerAccount ⟨true, str "ok"⟩)
  | notRegistered (data message : Bytes) :
      Authorised gen redis acts auth (.register data) (.registerAccount ⟨false, message⟩)
  | loggedIn (data : Bytes) (now : ℕ) (m : PMRequestLogin) : gen.parseLogin data = some m →
      Field gen redis acts m.id (str "password") (gen.sha256 m.password) → auth m.id →
      Authorised gen redis acts auth (.login data now) (.login ⟨true, str "ok"⟩)
  | notLoggedIn (data message : Bytes) (now : ℕ) :
      Authorised gen redis acts auth (.login data now) (.login ⟨false, message⟩)
  | shown (data id nickname color : Bytes) : auth id →
      Field gen redis acts id (str "nickname") nickname →
      Field gen redis acts id (str "personalColor") color →
      Authorised gen redis acts auth (.playerData data)
        (.playerData ⟨true, str "ok", nickname, color⟩)
  | notShown (data message : Bytes) :
      Authorised gen redis acts auth (.playerData data) (.playerData ⟨false, message, [], []⟩)

section Provenance

variable (gen : Generated) (redis : Redis) (acts : List (Action Token Activity))

/-- A command of client `t` that writes or tells nothing without a reason, in the handler
of the request `a`. -/
def Justified (auth : Bytes → Prop) (t : Token) (a : Activity) : Command → Prop
  | .hashSet key f v => (∃ id, key = idKey id ∧ Field gen redis acts id f v) ∨
      (key = clientKey t ∧ (f = str "loginId" → auth v)) ∨ ∃ id, key = loginedKey id
  | .postWrite u response => u = t ∧ Authorised gen redis acts auth a response
  | _ => True

/-- What client `t` reads has a reason. -/
def Honest (auth : Bytes → Prop) (t : Token) : (c : Command) → Reply c → Prop
  | .hashGet key f, r => ∀ v, r = some v →
      (∀ id, key = idKey id → Field gen redis acts id f v) ∧
      (key = clientKey t → f = str "loginId" → auth v)
  | _, _ => True

/-- Everything in the store has a reason. -/
structure Traced (auth : Token → Bytes → Prop) (w : World) : Prop where
  fields : ∀ id f v, w.redis.hashGet (idKey id) f = some v → Field gen redis acts id f v
  sessions : ∀ t id, session w t = some id → auth t id

variable {gen redis acts} {auth : Token → Bytes → Prop}

/-- A store with fewer fields is traced as well. -/
theorem Traced.of_sub {w w' : World} (h : Traced gen redis acts auth w)
    (hsub : ∀ k f v, w'.redis.hashGet k f = some v → w.redis.hashGet k f = some v) :
    Traced gen redis acts auth w' where
  fields id f v hg := h.fields id f v (hsub _ _ _ hg)
  sessions t id hg := h.sessions t id (hsub _ _ _ hg)

theorem traced_hashSet {w : World} {t : Token} {a : Activity} {key f v : Bytes}
    (hj : Justified gen redis acts (auth t) t a (.hashSet key f v))
    (h : Traced gen redis acts auth w) :
    Traced gen redis acts auth { w with redis := w.redis.hashSet key f v } := by
  refine ⟨fun id f' v' hg => ?_, fun u id hg => ?_⟩
  · simp only [Store.hashGet_hashSet] at hg
    split at hg
    · rename_i heq
      obtain ⟨hkey, rfl⟩ := heq
      obtain rfl := Option.some.inj hg
      rcases hj with ⟨id', hid, hfield⟩ | ⟨hid, -⟩ | ⟨id', hid⟩
      · rw [← hkey, idKey_inj] at hid
        exact hid ▸ hfield
      · exact absurd (hkey.trans hid) (by simp)
      · exact absurd (hkey.trans hid) (by simp)
    · exact h.fields id f' v' hg
  · simp only [session, Store.hashGet_hashSet] at hg
    split at hg
    · rename_i heq
      obtain ⟨hkey, rfl⟩ := heq
      obtain rfl := Option.some.inj hg
      rcases hj with ⟨id', hid, -⟩ | ⟨hid, hauth⟩ | ⟨id', hid⟩
      · exact absurd (hkey.trans hid) (by simp)
      · obtain rfl := clientKey_inj.mp (hkey.trans hid)
        exact hauth rfl
      · exact absurd (hkey.trans hid) (by simp)
    · exact h.sessions u id hg

/-- Justified commands keep everything traced, and so all replies are honest. -/
theorem keeps_traced : Keeps (server gen) (fun t => Justified gen redis acts (auth t) t)
    (fun t _ => Honest gen redis acts (auth t) t) (Traced gen redis acts auth) := by
  intro t a c w r w' hj h he
  cases executed_of_exec he with
  | hashGet key f =>
    refine ⟨fun v hv => ⟨fun id hid => ?_, fun hkey hf => ?_⟩, h⟩
    · subst hid
      exact h.fields id f v hv
    · subst hkey hf
      exact h.sessions t v hv
  | hashSet key f v => exact ⟨trivial, traced_hashSet hj h⟩
  | del key =>
    refine ⟨trivial, h.of_sub fun k f v hg => ?_⟩
    simp only [Store.hashGet_del] at hg
    exact (Option.ite_none_left_eq_some.mp hg).2
  | hashDel key g =>
    refine ⟨trivial, h.of_sub fun k f v hg => ?_⟩
    simp only [Store.hashGet_hashDel] at hg
    exact (Option.ite_none_left_eq_some.mp hg).2
  | _ => exact ⟨trivial, h.fields, h.sessions⟩

/-! ### The handlers -/

variable {t : Token} {a : Activity}

/-- A handler whose commands need no reason. -/
theorem assured_of_issues {Q : Command → Prop} {h : Handler Unit} (hq : Issues Q h)
    (hj : ∀ c, Q c → Justified gen redis acts (auth t) t a c) :
    Assured (Justified gen redis acts (auth t) t a) (Honest gen redis acts (auth t) t)
      (fun _ => True) h :=
  (hq.mono hj).assured

/-- A handler that posts a response which its client may be given. -/
theorem assured_post {α : Type} {p : Handler α} {f : α → Response}
    (hp : Assured (Justified gen redis acts (auth t) t a) (Honest gen redis acts (auth t) t)
      (fun m => Authorised gen redis acts (auth t) a (f m)) p) :
    Assured (Justified gen redis acts (auth t) t a) (Honest gen redis acts (auth t) t)
      (fun _ => True) (p >>= fun m => call (.postWrite t (f m))) :=
  hp.bind fun _ hm => .issue ⟨rfl, hm⟩ fun _ _ => trivial

theorem assured_creationAccount {data : Bytes} (hstart : .start t (.register data) ∈ acts) :
    Assured (Justified gen redis acts (auth t) t (.register data))
      (Honest gen redis acts (auth t) t) (fun _ => True)
      (handleRequestCreationAccount gen t data) := by
  refine assured_post ?_
  unfold creationAccountResponse
  split
  · exact .notRegistered data _
  · rename_i m hm
    split_ifs with h1 h2 h3
    · exact .notRegistered data _
    · exact .notRegistered data _
    · exact .notRegistered data _
    · have hreq : Requested gen acts t m := ⟨data, hstart, hm, by omega, by omega, by omega⟩
      have hfield : ∀ f v, (f, v) ∈ accountWrites gen m →
          Justified gen redis acts (auth t) t (.register data) (.hashSet (idKey m.id) f v) :=
        fun f v hv =>
        .inl ⟨m.id, rfl, .registered t m f v hreq hv⟩
      simp only [Program.call_bind]
      refine .issue trivial fun used _ => ?_
      split
      · exact .notRegistered data _
      · refine .issue (hfield _ _ (by simp [accountWrites])) fun _ _ => ?_
        refine .issue (hfield _ _ (by simp [accountWrites])) fun _ _ => ?_
        refine .issue (hfield _ _ (by simp [accountWrites])) fun _ _ => ?_
        exact .registered data m hm (by omega) (by omega) (by omega)

theorem assured_login {data : Bytes} {now : ℕ}
    (hauth : ∀ m, gen.parseLogin data = some m →
      Field gen redis acts m.id (str "password") (gen.sha256 m.password) → auth t m.id) :
    Assured (Justified gen redis acts (auth t) t (.login data now))
      (Honest gen redis acts (auth t) t) (fun _ => True) (handleRequestLogin gen t data now) := by
  refine assured_post ?_
  unfold loginResponse
  split
  · exact .notLoggedIn data _ now
  · rename_i m hm
    simp only [Program.call_bind]
    refine .issue trivial fun known _ => ?_
    split
    · exact .notLoggedIn data _ now
    · refine .issue trivial fun password hpassword => ?_
      cases password with
      | none => trivial
      | some passwordHash =>
        simp only [deref, Program.done_bind]
        split
        · exact .notLoggedIn data _ now
        · rename_i heq
          have hfield : Field gen redis acts m.id (str "password") (gen.sha256 m.password) :=
            not_not.mp heq ▸ (hpassword passwordHash rfl).1 m.id rfl
          have ha : auth t m.id := hauth m hm hfield
          refine .issue trivial fun logined _ => ?_
          split
          · exact .notLoggedIn data _ now
          · refine .issue (.inr (.inl ⟨rfl, fun _ => ha⟩)) fun _ _ => ?_
            refine .issue (.inr (.inr ⟨m.id, rfl⟩)) fun _ _ => ?_
            refine .issue (.inr (.inr ⟨m.id, rfl⟩)) fun _ _ => ?_
            exact .issue trivial fun _ _ => .loggedIn data now m hm hfield ha

theorem assured_playerData {data : Bytes} :
    Assured (Justified gen redis acts (auth t) t (.playerData data))
      (Honest gen redis acts (auth t) t) (fun _ => True) (handleRequestPlayerData gen t data) := by
  refine assured_post ?_
  unfold playerDataResponse
  split
  · exact .notShown data _
  · simp only [Program.call_bind]
    refine .issue trivial fun connected _ => ?_
    split
    · exact .notShown data _
    · refine .issue trivial fun loginId hsession => ?_
      cases loginId with
      | none => exact .notShown data _
      | some idStr =>
        refine .issue trivial fun known _ => ?_
        split
        · exact .notShown data _
        · refine .issue trivial fun nicknameStr hnick => .issue trivial fun colorStr hcolor => ?_
          refine .issue trivial fun _ _ => ?_
          cases nicknameStr with
          | none => trivial
          | some nickname =>
            cases colorStr with
            | none => trivial
            | some color =>
              exact .shown data idStr nickname color ((hsession idStr rfl).2 rfl rfl)
                ((hnick nickname rfl).1 idStr rfl) ((hcolor color rfl).1 idStr rfl)

theorem justified_of_logout {c : Command} (h : LogoutCommand t c) :
    Justified gen redis acts (auth t) t a c := by
  cases c <;> first | exact h.elim | trivial

/-- Every handler, where a login with the password of an account grants the account. -/
theorem assured_body {a : Activity} (hstart : .start t a ∈ acts)
    (hauth : ∀ data now m, a = .login data now → gen.parseLogin data = some m →
      Field gen redis acts m.id (str "password") (gen.sha256 m.password) → auth t m.id) :
    Assured (Justified gen redis acts (auth t) t a) (Honest gen redis acts (auth t) t)
      (fun _ => True) (a.body gen t) := by
  cases a with
  | accept now =>
    refine assured_of_issues (issues_acceptClient gen t now) fun c hc => ?_
    cases c with
    | hashSet key f v =>
      obtain ⟨rfl, rfl⟩ := hc
      exact .inr (.inl ⟨rfl, fun h => absurd h (by decide)⟩)
    | _ => first | exact hc.elim | trivial
  | register data => exact assured_creationAccount hstart
  | login data now => exact assured_login fun m => hauth data now m rfl
  | playerData data => exact assured_playerData
  | logout data => exact assured_of_issues (issues_logout gen t data) fun c => justified_of_logout
  | disconnect =>
    refine assured_of_issues (issues_disconnect t) fun c hc => ?_
    rcases hc with hc | hc
    · exact justified_of_logout hc
    · cases c <;> first | exact hc.elim | trivial

end Provenance

/-! ## Runs -/

/-- Client `t` has logged in to the account `id` over its current connection, with
the password of the account. -/
def LoggedIn (gen : Generated) (redis : Redis) (acts : List (Action Token Activity)) (t : Token)
    (id : Bytes) : Prop :=
  ∃ before data now after m, acts = before ++ .start t (.login data now) :: after ∧
    (∀ now', .start t (.accept now') ∉ after) ∧ gen.parseLogin data = some m ∧ m.id = id ∧
    Field gen redis acts id (str "password") (gen.sha256 m.password)

/-- A list splits before the last of its entries with `P`. -/
theorem exists_last {α : Type} (P : α → Prop) (l : List α) :
    (∀ a ∈ l, ¬P a) ∨ ∃ before a after, l = before ++ a :: after ∧ P a ∧ ∀ b ∈ after, ¬P b := by
  induction l with
  | nil => simp
  | cons x l ih =>
    rcases ih with hnone | ⟨before, a, after, rfl, ha, hafter⟩
    · by_cases hx : P x
      · exact .inr ⟨[], x, l, rfl, hx, hnone⟩
      · exact .inl fun a ha => (List.mem_cons.mp ha).elim (fun h => h ▸ hx) (hnone a)
    · exact .inr ⟨x :: before, a, after, rfl, ha, hafter⟩

section Runs

variable {gen : Generated} {redis : Redis} {acts : List (Action Token Activity)}
  {p p' : ServerPool} {t : Token}

/-- Between any two commands, where `auth` are the accounts that each client may see. -/
abbrev Explained (gen : Generated) (redis : Redis) (acts : List (Action Token Activity))
    (auth : Token → Bytes → Prop) (p : ServerPool) : Prop :=
  Sound (fun t => Justified gen redis acts (auth t) t)
    (fun t _ => Honest gen redis acts (auth t) t) (Traced gen redis acts auth) p

/-- While all clients may see every account. -/
theorem explained_open {before : List (Action Token Activity)} (hsub : before ⊆ acts)
    (hr : runs (server gen).step (Pool.idle (World.initial redis)) before = some p) :
    Explained gen redis acts (fun _ _ => True) p := by
  refine sound_run keeps_traced (fun u a hmem => ?_) (sound_idle ⟨?_, ?_⟩) hr
  · exact @assured_body gen redis acts (fun _ _ => True) u a (hsub hmem) fun _ _ _ _ _ _ => trivial
  · exact fun id f v hv => .initial id f v hv
  · exact fun _ _ _ => trivial

/-- From a moment on at which client `t` is idle and logged in to nothing, it may
see the accounts that it logs in to. -/
theorem explained_since {before after : List (Action Token Activity)}
    (hacts : acts = before ++ after)
    (hbefore : runs (server gen).step (Pool.idle (World.initial redis)) before = some p)
    (hidle : p.threads t = none) (hsession : session p.shared t = none)
    (hafter : runs (server gen).step p after = some p') {auth : Bytes → Prop}
    (hauth : ∀ data now m, .start t (.login data now) ∈ after → gen.parseLogin data = some m →
      Field gen redis acts m.id (str "password") (gen.sha256 m.password) → auth m.id) :
    Explained gen redis acts (Function.update (fun _ _ => True) t auth) p' := by
  subst hacts
  have hopen := explained_open (List.subset_append_left before after) hbefore
  have hsound : Explained gen redis (before ++ after)
      (Function.update (fun _ _ => True) t auth) p := by
    refine hopen.replace ⟨hopen.shared.fields, fun u id hu => ?_⟩ fun u hu => ?_
    · by_cases hut : u = t
      · subst hut
        rw [hsession] at hu
        cases hu
      · rw [Function.update_of_ne hut]
        trivial
    · have hut : u ≠ t := by
        rintro rfl
        exact hu hidle
      simp only [Function.update_of_ne hut, and_self]
  refine sound_run keeps_traced (fun u a hmem => ?_) hsound hafter
  refine assured_body (List.mem_append_right _ hmem) fun data now m ha hm hfield => ?_
  by_cases hut : u = t
  · subst hut ha
    rw [Function.update_self]
    exact hauth data now m hmem hm hfield
  · rw [Function.update_of_ne hut]
    trivial

/-- In every run, client `t` may see the accounts that it is logged in to. -/
theorem explained_run (hclean : CleanStore redis)
    (hr : runs (server gen).step (Pool.idle (World.initial redis)) acts = some p) (t : Token) :
    Explained gen redis acts
      (Function.update (fun _ _ => True) t (LoggedIn gen redis acts t)) p := by
  rcases exists_last (fun act => ∃ now, act = .start t (.accept now)) acts with
    hnone | ⟨before, act, after, hacts, ⟨now, rfl⟩, hafter⟩
  · refine explained_since (List.nil_append acts).symm rfl rfl (session_initial hclean t) hr ?_
    intro data now m hmem hm hfield
    obtain ⟨front, back, rfl⟩ := List.append_of_mem hmem
    exact ⟨front, data, now, back, m, rfl, fun now' hn =>
      hnone _ (List.mem_append_right _ (List.mem_cons_of_mem _ hn)) ⟨now', rfl⟩, hm, rfl, hfield⟩
  · have hsplit := hr
    rw [hacts, runs_append, Option.bind_eq_some_iff] at hsplit
    obtain ⟨q, hq, hq'⟩ := hsplit
    obtain ⟨q', hstart, -⟩ := runs_cons.mp hq'
    obtain ⟨hidle, hallows⟩ : q.threads t = none ∧ t ∉ q.shared.connectedClients := by
      rcases System.step_cases hstart with ⟨i, a, hact, hi, ha, -⟩ | ⟨i, a, u, hact, -⟩ |
        ⟨i, a, c, k, r, s, hact, -⟩
      · obtain ⟨rfl, rfl⟩ := Action.start.inj hact
        exact ⟨hi, of_decide_eq_true ha⟩
      · cases hact
      · cases hact
    refine explained_since hacts hq hidle (session_of_not_connected hclean hq hallows) hq' ?_
    intro data now' m hmem hm hfield
    have hmem' : .start t (.login data now') ∈ after := by simpa using hmem
    obtain ⟨front, back, rfl⟩ := List.append_of_mem hmem'
    exact ⟨before ++ .start t (.accept now) :: front, data, now', back, m, by simp [hacts],
      fun now'' hn => hafter _ (List.mem_append_right _ (List.mem_cons_of_mem _ hn)) ⟨now'', rfl⟩,
      hm, rfl, hfield⟩

/-- A session is the work of a login of the same connection with the password of the
account, and every field of an account comes from a registration. -/
theorem sessions_authenticated (gen : Generated) (redis : Redis) (hclean : CleanStore redis)
    (acts : List (Action Token Activity)) (p : ServerPool)
    (hr : runs (server gen).step (Pool.idle (World.initial redis)) acts = some p) :
    (∀ t id, session p.shared t = some id → LoggedIn gen redis acts t id) ∧
    ∀ id f v, p.shared.redis.hashGet (idKey id) f = some v → Field gen redis acts id f v := by
  refine ⟨fun t id hs => ?_, (explained_open (List.Subset.refl _) hr).shared.fields⟩
  have h := (explained_run hclean hr t).shared.sessions t id hs
  rwa [Function.update_self] at h

/-- Two connections and an account, to which client 1 logs in while client 2 asks for
player data. Then client 1 asks for its own. -/
def loginAndRead : List (Action Token Activity) := List.flatten
  [twoClients, [.start 1 (.login sampleLogin 5), .start 2 (.playerData [])], advances 1 3,
    advances 2 4, advances 1 6, [.start 1 (.playerData [])], advances 1 8]

theorem sessions_authenticated_login : ∃ p,
    runs (server wireGenerated).step (Pool.idle (World.initial Store.empty)) loginAndRead = some p ∧
    LoggedIn wireGenerated Store.empty loginAndRead 1 (str "ab") := by
  have hrun : (runs (server wireGenerated).step (Pool.idle (World.initial Store.empty))
      loginAndRead).map (fun p => session p.shared 1) = some (some (str "ab")) := by decide +kernel
  obtain ⟨p, hp, hsession⟩ := Option.map_eq_some_iff.mp hrun
  exact ⟨p, hp, (sessions_authenticated wireGenerated Store.empty cleanStore_empty _ p hp).1 1 _
    hsession⟩

end Runs

/-! ## With the server's own hash -/

/-- The server with the hash function of the repository. -/
def ownHash (gen : Generated) : Generated :=
  { gen with sha256 := fun password => (Sha256.sha256 password).getD [] }

/-- No password in the run is too long for the hash: the receive buffer holds less. -/
structure ShortPasswords (gen : Generated) (acts : List (Action Token Activity)) : Prop where
  login : ∀ t data now m, .start t (.login data now) ∈ acts → gen.parseLogin data = some m →
    m.password.length < 2 ^ 29
  register : ∀ t m, Requested gen acts t m → m.password.length < 2 ^ 29

theorem sha256_ownHash (gen : Generated) {password : Bytes} (h : password.length < 2 ^ 29) :
    Sha256.sha256 password = some ((ownHash gen).sha256 password) := by
  change _ = some ((Sha256.sha256 password).getD [])
  rw [Sha256.sha256_eq_standard password h, Option.getD_some]

/-- The password of an account is that of a registration. -/
theorem Field.password {gen : Generated} {redis : Redis} {acts : List (Action Token Activity)}
    {id v : Bytes} (h : Field gen redis acts id (str "password") v) :
    redis.hashGet (idKey id) (str "password") = some v ∨
      ∃ t q, Requested gen acts t q ∧ q.id = id ∧ gen.sha256 q.password = v := by
  generalize hf : str "password" = f at h
  cases h with
  | initial _ _ _ hg => exact .inl (hf ▸ hg)
  | registered t m _ _ hreq hv =>
    subst hf
    have hn : str "password" ≠ str "nickname" := by decide
    have hc : str "password" ≠ str "personalColor" := by decide
    simp only [accountWrites, List.mem_cons, List.not_mem_nil, Prod.mk.injEq, hn, hc, or_false,
      false_and, true_and] at hv
    exact .inr ⟨t, m, hreq, rfl, hv.symm⟩

/-- Whoever is logged in to an account has sent, over the same connection, a password
that hashes to the one stored before the run, or that some registration of the account
has set, or the two are an explicit collision of the compression function. -/
theorem session_of_password (gen : Generated) (redis : Redis) (hclean : CleanStore redis)
    (acts : List (Action Token Activity)) (hshort : ShortPasswords gen acts) (p : ServerPool)
    (hr : runs (server (ownHash gen)).step (Pool.idle (World.initial redis)) acts = some p)
    (t : Token) (id : Bytes) (hs : session p.shared t = some id) :
    ∃ before data now after m, acts = before ++ .start t (.login data now) :: after ∧
      (∀ now', .start t (.accept now') ∉ after) ∧ gen.parseLogin data = some m ∧ m.id = id ∧
      (redis.hashGet (idKey id) (str "password") = Sha256.sha256 m.password ∨
        ∃ u q, Requested gen acts u q ∧ q.id = id ∧
          (q.password = m.password ∨ Sha256.Collides q.password m.password)) := by
  obtain ⟨before, data, now, after, m, hacts, hafter, hm, hid, hfield⟩ :=
    (sessions_authenticated (ownHash gen) redis hclean acts p hr).1 t id hs
  have hlogin : m.password.length < 2 ^ 29 := hshort.login t data now m (by simp [hacts]) hm
  refine ⟨before, data, now, after, m, hacts, hafter, hm, hid, ?_⟩
  rcases hfield.password with hstored | ⟨u, q, hreq, hq, hhash⟩
  · exact .inl (hstored.trans (sha256_ownHash gen hlogin).symm)
  · have hregister : q.password.length < 2 ^ 29 := hshort.register u q hreq
    have hsame : Sha256.sha256 q.password = Sha256.sha256 m.password := by
      rw [sha256_ownHash gen hregister, sha256_ownHash gen hlogin, hhash]
    exact .inr ⟨u, q, hreq, hq, Sha256.same_hash_cases _ _ hregister hlogin hsame⟩

theorem shortPasswords_loginAndRead : ShortPasswords wireGenerated loginAndRead where
  login t data now m hmem hm := by
    have hdata : data = sampleLogin := by
      simp [loginAndRead, twoClients, advances] at hmem
      exact hmem.2.1
    subst hdata
    obtain rfl := Option.some.inj hm
    decide
  register t m := by
    rintro ⟨data, hmem, hm, -⟩
    have hdata : data = sampleRegister := by
      simp [loginAndRead, twoClients, advances] at hmem
      exact hmem.2
    subst hdata
    obtain rfl := Option.some.inj hm
    decide

theorem session_of_password_login : ∃ p,
    runs (server (ownHash wireGenerated)).step (Pool.idle (World.initial Store.empty))
      loginAndRead = some p ∧
    ∃ before data now after m, loginAndRead = before ++ .start 1 (.login data now) :: after ∧
      (∀ now', .start 1 (.accept now') ∉ after) ∧ wireGenerated.parseLogin data = some m ∧
      m.id = str "ab" ∧
      (Store.empty.hashGet (idKey (str "ab")) (str "password") = Sha256.sha256 m.password ∨
        ∃ u q, Requested wireGenerated loginAndRead u q ∧ q.id = str "ab" ∧
          (q.password = m.password ∨ Sha256.Collides q.password m.password)) := by
  have hrun : (runs (server (ownHash wireGenerated)).step (Pool.idle (World.initial Store.empty))
      loginAndRead).map (fun p => session p.shared 1) = some (some (str "ab")) := by decide +kernel
  obtain ⟨p, hp, hsession⟩ := Option.map_eq_some_iff.mp hrun
  exact ⟨p, hp, session_of_password wireGenerated Store.empty cleanStore_empty _
    shortPasswords_loginAndRead p hp 1 _ hsession⟩

end IsolationServer.Credentials
