import IsolationServer.CreationProtocol
import IsolationServer.Footprints

/-!
# Registration under concurrent handlers

An account is the hash `id:{id}` with three fields. A registration tests that
the key is absent and then writes the fields with one command each, so two
registrations of the same id can both find it absent. The handlers follow the
creation protocol; its invariant holds as long as no two registrations are
between the test and the first write of the same account.
-/
namespace IsolationServer.Registration
open CommandPrograms CreationProtocol HashStore Runs

/-- What a registration request creates. -/
def accountPlan (gen : Generated) : Plan Bytes Bytes Bytes PMRequestRegisterAccount where
  target := PMRequestRegisterAccount.id
  fields m := [(str "password", gen.sha256 m.password), (str "nickname", m.nickname),
    (str "personalColor", m.personalcolor)]
  fields_ne m := by simp
  nodup m := by
    have hnd : [str "password", str "nickname", str "personalColor"].Nodup := by decide
    simpa using hnd

/-- The accounts as the store records them. -/
def accountsOf (s : Redis) : Records Bytes Bytes Bytes := fun id f => s.hashGet (idKey id) f

/-- The fields of the account that `m` registers, and no other field. -/
def accountField (gen : Generated) (m : PMRequestRegisterAccount) (f : Bytes) : Option Bytes :=
  if f = str "password" then some (gen.sha256 m.password)
  else if f = str "nickname" then some m.nickname
  else if f = str "personalColor" then some m.personalcolor
  else none

theorem written_account (gen : Generated) (m : PMRequestRegisterAccount) (f : Bytes) :
    (accountPlan gen).written m ((accountPlan gen).fields m).length f = accountField gen m f := by
  have hn : str "nickname" ≠ str "password" := by decide
  have hc : str "personalColor" ≠ str "password" := by decide
  have hcn : str "personalColor" ≠ str "nickname" := by decide
  change (accountPlan gen).written m 3 f = accountField gen m f
  rw [written_succ (n := 2) rfl, written_succ (n := 1) rfl, written_succ (n := 0) rfl]
  unfold accountField
  by_cases h1 : f = str "personalColor"
  · subst h1
    simp [hc, hcn]
  · by_cases h2 : f = str "nickname"
    · subst h2
      simp [hn, h1]
    · simp [h1, h2, Plan.written]

/-- The request of a registration activity. -/
def registerRequest (gen : Generated) : Activity → Option PMRequestRegisterAccount
  | .register data => gen.parseRegisterAccount data
  | _ => none

/-- Commands that write to no account. -/
def SparesAccounts : Command → Prop
  | .hashSet key _ _ => ∀ id, key ≠ idKey id
  | .del key => ∀ id, key ≠ idKey id
  | .hashDel key _ => ∀ id, key ≠ idKey id
  | _ => True

/-- Commands that write to no account and answer no registration with
`result = true`. -/
def Quiet : Command → Prop
  | .hashSet key _ _ => ∀ id, key ≠ idKey id
  | .del key => ∀ id, key ≠ idKey id
  | .hashDel key _ => ∀ id, key ≠ idKey id
  | .postWrite _ (.registerAccount m) => m.result = false
  | _ => True

/-- The commands of the registration handler as moves of the creation protocol. -/
inductive RegisterMove (gen : Generated) (t : Token) (a : Activity) :
    Stage PMRequestRegisterAccount → (c : Command) → Reply c →
      Stage PMRequestRegisterAccount → Prop where
  | quiet (c : Command) (r : Reply c) : Quiet c → RegisterMove gen t a .idle c r .idle
  | test (m : PMRequestRegisterAccount) : registerRequest gen a = some m →
      RegisterMove gen t a .idle (.existsKey (idKey m.id)) false (.writing m 0)
  | write (m : PMRequestRegisterAccount) (n : ℕ) (f v : Bytes) : registerRequest gen a = some m →
      ((accountPlan gen).fields m)[n]? = some (f, v) →
      RegisterMove gen t a (.writing m n) (.hashSet (idKey m.id) f v) () (.writing m (n + 1))
  | answer (m : PMRequestRegisterAccount) (r : PMResponseRegisterAccount) :
      registerRequest gen a = some m → RegisterMove gen t a
        (.writing m ((accountPlan gen).fields m).length) (.postWrite t (.registerAccount r)) ()
        .idle

section Commands

variable {gen : Generated} {t : Token} {a : Activity}

theorem accountsOf_hashSet (s : Redis) (id f v : Bytes) :
    accountsOf (s.hashSet (idKey id) f v) =
      Function.update (accountsOf s) id (Function.update (accountsOf s id) f (some v)) := by
  funext j g
  by_cases hj : j = id
  · subst hj
    by_cases hg : g = f <;> simp [accountsOf, Store.hashGet_hashSet, hg]
  · simp [accountsOf, Store.hashGet_hashSet, hj]

theorem accountsOf_spares {c : Command} {r : Reply c} {w w' : World} (hc : SparesAccounts c)
    (h : exec c w = some (r, w')) : accountsOf w'.redis = accountsOf w.redis := by
  funext j g
  cases executed_of_exec h with
  | hashSet key field value => simp [accountsOf, Store.hashGet_hashSet, (hc j).symm]
  | del key => simp [accountsOf, Store.hashGet_del, (hc j).symm]
  | hashDel key field => simp [accountsOf, Store.hashGet_hashDel, (hc j).symm]
  | _ => rfl

theorem spares_of_quiet {c : Command} (h : Quiet c) : SparesAccounts c := by
  cases c <;> first | exact h | trivial

theorem accountsOf_quiet {c : Command} {r : Reply c} {w w' : World} (hc : Quiet c)
    (h : exec c w = some (r, w')) : accountsOf w'.redis = accountsOf w.redis :=
  accountsOf_spares (spares_of_quiet hc) h

/-- A move of a handler is a step of the creation protocol on the store. -/
theorem RegisterMove.step {x y : Stage PMRequestRegisterAccount} {c : Command} {r : Reply c}
    {w w' : World} (h : RegisterMove gen t a x c r y) (he : exec c w = some (r, w')) :
    Step (accountPlan gen) x (accountsOf w.redis) y (accountsOf w'.redis) := by
  cases h with
  | quiet c r hc => exact accountsOf_quiet hc he ▸ .stutter .idle _
  | test m hm =>
    simp only [exec, Option.some.injEq, Prod.mk.injEq] at he
    obtain ⟨hn, rfl⟩ := he
    exact .test m _ ((Store.existsKey_false_iff _ _).mp hn)
  | write m n f v _ hf =>
    cases executed_of_exec he
    rw [accountsOf_hashSet]
    exact .write m n f v _ hf
  | answer m r hm =>
    rw [redis_of_exec he rfl]
    exact .answer m _

theorem conforms_quiet {c : Command} {α : Type} {k : Reply c → Handler α}
    {fin : Option α → Stage PMRequestRegisterAccount → Prop} (hc : Quiet c)
    (hk : ∀ r, Conforms (RegisterMove gen t a) fin .idle (k r)) :
    Conforms (RegisterMove gen t a) fin .idle (.issue c k) :=
  fun r => ⟨.idle, .quiet c r hc, hk r⟩

/-- A registration that is answered with `result = true` has written the three
fields of its account. -/
theorem conforms_creationAccount (data : Bytes) :
    Conforms (RegisterMove gen t (.register data)) (fun _ y => y = .idle) .idle
      (handleRequestCreationAccount gen t data) := by
  unfold handleRequestCreationAccount creationAccountResponse
  cases hm : gen.parseRegisterAccount data with
  | none => exact conforms_quiet rfl fun _ => rfl
  | some m =>
    have hreq : registerRequest gen (.register data) = some m := hm
    simp only [Program.pure_eq_done]
    split
    · exact conforms_quiet rfl fun _ => rfl
    · split
      · exact conforms_quiet rfl fun _ => rfl
      · split
        · exact conforms_quiet rfl fun _ => rfl
        · simp only [Program.call_bind, Program.issue_bind]
          intro used
          cases used with
          | true => exact ⟨.idle, .quiet _ _ trivial, conforms_quiet rfl fun _ => rfl⟩
          | false =>
            refine ⟨.writing m 0, .test m hreq, fun _ => ?_⟩
            refine ⟨.writing m 1, .write m 0 _ _ hreq rfl, fun _ => ?_⟩
            refine ⟨.writing m 2, .write m 1 _ _ hreq rfl, fun _ => ?_⟩
            refine ⟨.writing m 3, .write m 2 _ _ hreq rfl, fun _ => ?_⟩
            exact ⟨.idle, .answer m _ hreq, rfl⟩

theorem quiet_of_logout (c : Command) (h : LogoutCommand t c) : Quiet c := by
  cases c with
  | del key =>
    obtain ⟨id, rfl⟩ := h
    simp [Quiet]
  | hashDel key field =>
    obtain ⟨rfl, -⟩ := h
    simp [Quiet]
  | _ => first | exact h.elim | trivial

/-- The other handlers leave the accounts alone. -/
theorem issues_quiet_body (gen : Generated) (t : Token) (a : Activity)
    (ha : ∀ data, a ≠ .register data) : Issues Quiet (a.body gen t) := by
  cases a with
  | accept now =>
    refine (issues_acceptClient gen t now).mono fun c hc => ?_
    cases c with
    | hashSet key field value =>
      obtain ⟨rfl, -⟩ := hc
      simp [Quiet]
    | _ => first | exact hc.elim | trivial
  | register data => exact absurd rfl (ha data)
  | login data now =>
    refine (issues_login gen t data now).mono fun c hc => ?_
    cases c with
    | hashSet key field value =>
      rcases hc with ⟨rfl, -⟩ | ⟨id, rfl⟩ <;> simp [Quiet]
    | postWrite u r => cases r <;> first | exact hc.elim | trivial
    | _ => first | exact hc.elim | trivial
  | playerData data =>
    refine (issues_playerData gen t data).mono fun c hc => ?_
    cases c with
    | postWrite u r => cases r <;> first | exact hc.elim | trivial
    | _ => first | exact hc.elim | trivial
  | logout data => exact (issues_logout gen t data).mono quiet_of_logout
  | disconnect =>
    refine (issues_disconnect t).mono fun c hc => ?_
    rcases hc with hc | hc
    · exact quiet_of_logout c hc
    · cases c with
      | del key =>
        obtain rfl := hc
        simp [Quiet]
      | _ => first | exact hc.elim | trivial

/-- Every handler follows the creation protocol. -/
theorem body_conforms (gen : Generated) (t : Token) (a : Activity) :
    Conforms (RegisterMove gen t a) (fun _ y => y = .idle) .idle (a.body gen t) := by
  by_cases ha : ∃ data, a = .register data
  · obtain ⟨data, rfl⟩ := ha
    exact conforms_creationAccount data
  · refine Issues.conforms ?_ ?_ (issues_quiet_body gen t a fun data h => ha ⟨data, h⟩)
    · exact fun c r hc => .quiet c r hc
    · exact fun _ => rfl

end Commands

section Runs

variable {gen : Generated} {p p' : ServerPool} {stage : Token → Stage PMRequestRegisterAccount}
  {act : Action Token Activity}

/-- A client serving `m` has found the account absent and written nothing yet:
its next command is the write of the password. -/
def FirstWrite (p : ServerPool) (t : Token) (id : Bytes) : Prop :=
  ∃ hash, p.next t = some (.hashSet (idKey id) (str "password") hash)

/-- The side condition on a run: a registration that finds the account of `id`
absent is the only one between this test and the first write. -/
def RegisterTestAlone (gen : Generated) (p : ServerPool) : Action Token Activity → Prop
  | .start _ _ => True
  | .advance t => ∀ a m, p.activity t = some a → registerRequest gen a = some m →
      p.next t = some (.existsKey (idKey m.id)) →
      p.shared.redis.existsKey (idKey m.id) = false → ∀ u, u ≠ t → ¬ FirstWrite p u m.id

/-- Client `e.thread` is answered `result = true` for the registration `m`. -/
def AccountAnswered (gen : Generated) (m : PMRequestRegisterAccount) (e : ServerEvent) : Prop :=
  registerRequest gen e.activity = some m ∧ ∃ r : PMResponseRegisterAccount,
    r.result = true ∧ e.command = .postWrite e.thread (.registerAccount r)

/-- A client that has written nothing yet is about to write the password. -/
theorem firstWrite_of_stage (hst : Staged (RegisterMove gen) (Resting .idle) .idle p stage)
    {t : Token} {m : PMRequestRegisterAccount} (ht : stage t = .writing m 0) :
    FirstWrite p t m.id := by
  have hne : stage t ≠ .idle := by
    intro h
    rw [h] at ht
    cases ht
  obtain ⟨a, c, k, hth, hk⟩ := hst.next_command hne
  obtain ⟨y, hy, -⟩ := hk default
  have hnext : p.next t = some c := by simp [Pool.next, Program.next, hth]
  generalize (default : Reply c) = r at hy
  generalize stage t = x at ht hy
  cases hy with
  | quiet | test | answer => cases ht
  | write q n f v _ hf =>
    cases ht
    cases hf
    exact ⟨_, hnext⟩

/-- A client that is answered `result = true` has written all fields. -/
theorem RegisterMove.written_of_answered {t : Token} {a : Activity} {c : Command} {r : Reply c}
    {x y : Stage PMRequestRegisterAccount} {m : PMRequestRegisterAccount}
    (h : RegisterMove gen t a x c r y) (hans : AccountAnswered gen m ⟨t, a, c⟩) :
    x = .writing m ((accountPlan gen).fields m).length ∧ y = .idle := by
  obtain ⟨hm, q, hq, hc⟩ := hans
  simp only at hm hc
  subst hc
  cases h with
  | quiet _ _ hquiet => simp [Quiet, hq] at hquiet
  | answer m' r hm' =>
    obtain rfl : m' = m := Option.some.inj (hm'.symm.trans hm)
    exact ⟨rfl, rfl⟩

/-- The accounts at any moment: a stage for each client that fits its remaining
program, the invariant of the creation protocol, and for every registration
answered so far a complete account that nobody else has been given. -/
structure Registered (gen : Generated) (p : ServerPool)
    (stage : Token → Stage PMRequestRegisterAccount) : Prop where
  staged : Staged (RegisterMove gen) (Resting .idle) .idle p stage
  inv : Inv (accountPlan gen) (accountsOf p.shared.redis) stage
  settled : ∀ e ∈ p.trace, ∀ m, AccountAnswered gen m e →
    Settled (accountPlan gen) (accountsOf p.shared.redis) stage m
  unique : p.trace.Pairwise fun e f => ∀ m m', AccountAnswered gen m e →
    AccountAnswered gen m' f → m.id ≠ m'.id

theorem registered_idle (redis : Redis) :
    Registered gen (Pool.idle (World.initial redis)) (fun _ => .idle) where
  staged := staged_idle _
  inv := inv_initial _ _
  settled e he := by simp [Pool.idle] at he
  unique := List.Pairwise.nil

theorem Registered.step (h : Registered gen p stage) (hs : (server gen).step p act = some p')
    (halone : RegisterTestAlone gen p act) : ∃ stage', Registered gen p' stage' := by
  rcases h.staged.step (body_conforms gen) (fun _ h => h) hs with ⟨hst', hsh, htr⟩ |
    ⟨t, a, c, k, r, x, hact, ht, he, hδ, htr, hst'⟩
  · exact ⟨stage, hst', hsh ▸ h.inv, hsh ▸ htr ▸ h.settled, htr ▸ h.unique⟩
  · have hstep := hδ.step he
    have hinv : Inv (accountPlan gen) (accountsOf p'.shared.redis) (Function.update stage t x) := by
      refine h.inv.step hstep fun m hx u hu q hq hid => ?_
      subst hx hact
      have hid' : q.id = m.id := hid
      have hfirst := hid' ▸ firstWrite_of_stage h.staged hq
      generalize stage t = y at hδ
      cases hδ with
      | test _ hm =>
        simp only [server, exec, Option.some.injEq, Prod.mk.injEq] at he
        exact halone a m (by simp [Pool.activity, ht]) hm (by simp [Pool.next, Program.next, ht])
          he.1 u hu hfirst
    have hold : ∀ e ∈ p.trace, ∀ m, AccountAnswered gen m e →
        Settled (accountPlan gen) (accountsOf p'.shared.redis) (Function.update stage t x) m :=
      fun e hmem m hm => (h.settled e hmem m hm).step hstep
    refine ⟨_, hst', hinv, ?_, ?_⟩
    · rw [htr]
      intro e hmem m hm
      rcases List.mem_append.mp hmem with hmem | hmem
      · exact hold e hmem m hm
      · obtain rfl : e = ⟨t, a, c⟩ := by simpa using hmem
        obtain ⟨hx, rfl⟩ := hδ.written_of_answered hm
        have hredis : p'.shared.redis = p.shared.redis := by
          obtain ⟨-, q, -, hc⟩ := hm
          simp only at hc
          subst hc
          exact redis_of_exec (c := .postWrite t (.registerAccount q)) he rfl
        rw [hredis]
        exact h.inv.settled_of_answer hx
    · rw [htr, List.pairwise_append]
      refine ⟨h.unique, List.pairwise_singleton _ _, fun e hmem f hf m m' hm hm' hid => ?_⟩
      obtain rfl : f = ⟨t, a, c⟩ := by simpa using hf
      obtain ⟨hx, -⟩ := hδ.written_of_answered hm'
      refine (h.settled e hmem m hm).2 t ?_
      rw [hx, target_writing]
      exact congrArg some hid.symm

theorem registered_run {redis : Redis} {acts : List (Action Token Activity)}
    (hr : runs (server gen).step (Pool.idle (World.initial redis)) acts = some p)
    (halone : Along (server gen).step (RegisterTestAlone gen) (Pool.idle (World.initial redis))
      acts) :
    ∃ stage, Registered gen p stage := by
  refine invariant_along (I := fun q => ∃ stage, Registered gen q stage) ?_
    ⟨_, registered_idle redis⟩ halone hr
  rintro q act q' ⟨stage, h⟩ hok hs
  exact h.step hs hok

/-- Registration uniqueness: in every run in which no registration tests an
account between the test and the first write of another one for the same id, no
two registrations of one id are answered `result = true`, and the account of an
answered registration has exactly the fields of that request. -/
theorem unique_registration (gen : Generated) (redis : Redis)
    (acts : List (Action Token Activity)) (p : ServerPool)
    (hr : runs (server gen).step (Pool.idle (World.initial redis)) acts = some p)
    (halone : Along (server gen).step (RegisterTestAlone gen)
      (Pool.idle (World.initial redis)) acts) :
    (p.trace.Pairwise fun e f => ∀ m m', AccountAnswered gen m e →
      AccountAnswered gen m' f → m.id ≠ m'.id) ∧
    ∀ e ∈ p.trace, ∀ m, AccountAnswered gen m e →
      ∀ f, p.shared.redis.hashGet (idKey m.id) f = accountField gen m f := by
  obtain ⟨stage, h⟩ := registered_run hr halone
  refine ⟨h.unique, fun e he m hm f => ?_⟩
  rw [← written_account]
  exact (h.settled e he m hm).1 f

/-! ## Registrations of one id that do not overlap -/

/-- The id that a registration request names. -/
def registerTarget (gen : Generated) (a : Activity) : Option Bytes :=
  (registerRequest gen a).map PMRequestRegisterAccount.id

/-- No registration is taken up while another client's registration of the same
id is in progress. -/
abbrev RegistrationsDisjoint (gen : Generated) : ServerPool → Action Token Activity → Prop :=
  Disjoint (registerTarget gen)

/-- A client that is about to write to an account is serving a registration of
that id. -/
theorem register_of_firstWrite (hst : Staged (RegisterMove gen) (Resting .idle) .idle p stage)
    {t : Token} {id : Bytes} (hw : FirstWrite p t id) :
    ∃ a, p.activity t = some a ∧ registerTarget gen a = some id := by
  obtain ⟨hash, hn⟩ := hw
  cases ht : p.threads t with
  | none => simp [Pool.next, ht] at hn
  | some q =>
    obtain ⟨a, q⟩ := q
    have hact : p.activity t = some a := by simp [Pool.activity, ht]
    have hcf := hst.conforms ht
    simp only [Pool.next, ht, Option.bind_some] at hn
    cases q with
    | done u => cases hn
    | undefined => cases hn
    | issue c k =>
      obtain rfl : c = _ := Option.some.inj hn
      obtain ⟨y, hy, -⟩ := hcf default
      refine ⟨a, hact, ?_⟩
      generalize stage t = x at hy
      generalize hkey : idKey id = key at hy
      cases hy with
      | quiet _ _ hq => exact absurd hkey.symm (hq id)
      | write m n f v hm _ =>
        obtain rfl : id = m.id := by simpa using hkey
        simp [registerTarget, hm]

/-- At most one client is serving a registration of each id, and every handler
follows the creation protocol. -/
abbrev OneRegistration (gen : Generated) : ServerPool → Prop :=
  OneEach (RegisterMove gen) .idle (registerTarget gen)

theorem OneRegistration.registerTestAlone (h : OneRegistration gen p) :
    RegisterTestAlone gen p act := by
  cases act with
  | start t a => trivial
  | advance t =>
    intro a m ha hm _ _ u hu hw
    obtain ⟨⟨stage, hst⟩, hone⟩ := h
    obtain ⟨b, hb, hub⟩ := register_of_firstWrite hst hw
    exact hu (hone u t b a m.id hb ha hub (by simp [registerTarget, hm]))

theorem registerTestAlone_of_disjoint {w : World} {acts : List (Action Token Activity)}
    (hd : Along (server gen).step (RegistrationsDisjoint gen) (Pool.idle w) acts) :
    Along (server gen).step (RegisterTestAlone gen) (Pool.idle w) acts :=
  OneEach.along (body_conforms gen) (fun _ _ h => OneRegistration.registerTestAlone h) hd

/-- A registration of the same id with another password, nickname and color. -/
def rivalRegister : Bytes :=
  wireField 1 (str "ab") ++ wireField 2 (str "zz") ++ wireField 3 (str "rival") ++
    wireField 4 (str "blue")

/-- Client 1 registers `ab` while client 2 connects and logs in to the new account; then
client 1 tries to register it again with other data. -/
def registerDuringLogin : List (Action Token Activity) := List.flatten
  [[.start 1 (.accept 0)], advances 1 22, [.start 1 (.register sampleRegister)], advances 1 2,
    [.start 2 (.accept 0)], advances 2 22, advances 1 3, [.start 2 (.login sampleLogin 5)],
    advances 2 5, advances 1 1, advances 2 4, [.start 1 (.register rivalRegister)], advances 1 3]

theorem unique_registration_during_login : ∃ p,
    runs (server wireGenerated).step (Pool.idle (World.initial Store.empty))
      registerDuringLogin = some p ∧
    p.shared.redis.hashGet (idKey (str "ab")) (str "nickname") = some (str "nick") := by
  let e : ServerEvent :=
    ⟨1, .register sampleRegister, .postWrite 1 (.registerAccount ⟨true, str "ok"⟩)⟩
  have hrun : (runs (server wireGenerated).step (Pool.idle (World.initial Store.empty))
      registerDuringLogin).map (fun p => decide (e ∈ p.trace)) = some true := by decide +kernel
  obtain ⟨p, hp, hmem⟩ := Option.map_eq_some_iff.mp hrun
  have hd : Along (server wireGenerated).step (RegistrationsDisjoint wireGenerated)
      (Pool.idle (World.initial Store.empty)) registerDuringLogin :=
    along_disjoint _ 1 _ _ (fun u b _ hb => by simp [Pool.activity, Pool.idle] at hb)
      (by decide)
  have hunique := unique_registration wireGenerated Store.empty _ p hp
    (registerTestAlone_of_disjoint hd)
  have hans : AccountAnswered wireGenerated ⟨str "ab", str "pw", str "nick", str "red"⟩ e :=
    ⟨by decide, ⟨true, str "ok"⟩, rfl, rfl⟩
  have hnick := hunique.2 e (of_decide_eq_true hmem) _ hans (str "nickname")
  exact ⟨p, hp, hnick.trans (by decide)⟩

/-- Both clients find the account absent before either of them writes to it. -/
def overlappingRegistrations : List (Action Token Activity) := List.flatten
  [[.start 1 (.accept 0)], advances 1 22, [.start 2 (.accept 0)], advances 2 22,
    [.start 1 (.register sampleRegister), .start 2 (.register rivalRegister)], advances 1 1,
    advances 2 1, advances 1 1, advances 2 2, advances 1 3, advances 2 2, advances 1 1,
    advances 2 1]

/-- Without the side condition two registrations of one id can be answered
`result = true`. -/
theorem overlapping_registrations_both_answered :
    ¬ ∀ (gen : Generated) (redis : Redis) (acts : List (Action Token Activity)) (p : ServerPool),
      runs (server gen).step (Pool.idle (World.initial redis)) acts = some p →
      (p.trace.Pairwise fun e f => ∀ m m', AccountAnswered gen m e →
        AccountAnswered gen m' f → m.id ≠ m'.id) ∧
      ((∀ t, p.threads t = none) → ∀ e ∈ p.trace, ∀ m, AccountAnswered gen m e →
        ∀ f, p.shared.redis.hashGet (idKey m.id) f = accountField gen m f) := by
  intro hall
  let e : ServerEvent :=
    ⟨1, .register sampleRegister, .postWrite 1 (.registerAccount ⟨true, str "ok"⟩)⟩
  let f : ServerEvent :=
    ⟨2, .register rivalRegister, .postWrite 2 (.registerAccount ⟨true, str "ok"⟩)⟩
  have hrun : (runs (server wireGenerated).step (Pool.idle (World.initial Store.empty))
      overlappingRegistrations).map (fun p => decide (List.Sublist [e, f] p.trace)) =
        some true := by decide +kernel
  obtain ⟨p, hp, hsub⟩ := Option.map_eq_some_iff.mp hrun
  have hpair := (hall wireGenerated Store.empty _ p hp).1.sublist (of_decide_eq_true hsub)
  have he : AccountAnswered wireGenerated ⟨str "ab", str "pw", str "nick", str "red"⟩ e :=
    ⟨by decide, ⟨true, str "ok"⟩, rfl, rfl⟩
  have hf : AccountAnswered wireGenerated ⟨str "ab", str "zz", str "rival", str "blue"⟩ f :=
    ⟨by decide, ⟨true, str "ok"⟩, rfl, rfl⟩
  exact (List.pairwise_cons.mp hpair).1 f (by simp) _ _ he hf rfl

end Runs

end IsolationServer.Registration
