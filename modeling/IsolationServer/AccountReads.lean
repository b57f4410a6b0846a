import IsolationServer.CompleteAccounts
import IsolationServer.Registration

/-!
# Reading accounts while they are written

A login and a player-data request test that the account exists and then read
its fields without testing them again. The password is the first field that a
registration writes, so it is there whenever the account exists. The nickname
and the color are there as long as they are not read between the first and the
last write of a registration.
-/
namespace IsolationServer.AccountReads
open CommandPrograms CompleteAccounts HashStore Registration Runs

/-- `known`: the thread has seen that the account exists. `naming` and
`coloring`: it has written the password, and then the nickname, of a new
account. `bad`: a field that it has read was missing. -/
inductive Stage where
  | idle
  | known (id : Bytes)
  | naming (id : Bytes)
  | coloring (id : Bytes)
  | bad

/-- The account that the stage knows to exist. -/
def Stage.account : Stage → Option Bytes
  | .known id => some id
  | .naming id => some id
  | .coloring id => some id
  | _ => none

/-- The field that the stage is about to write. -/
def Stage.field : Stage → Option (Bytes × Bytes)
  | .naming id => some (id, str "nickname")
  | .coloring id => some (id, str "personalColor")
  | _ => none

inductive ReadMove : Stage → (c : Command) → Reply c → Stage → Prop where
  | quiet (x : Stage) (c : Command) (r : Reply c) : x.field = none → SparesAccounts c →
      ReadMove x c r x
  | settle (id : Bytes) (c : Command) (r : Reply c) : SparesAccounts c →
      ReadMove (.known id) c r .idle
  | found (id : Bytes) : ReadMove .idle (.existsKey (idKey id)) true (.known id)
  | missing (id f : Bytes) : f ∈ accountFields →
      ReadMove (.known id) (.hashGet (idKey id) f) none .bad
  | password (id v : Bytes) :
      ReadMove .idle (.hashSet (idKey id) (str "password") v) () (.naming id)
  | nickname (id v : Bytes) :
      ReadMove (.naming id) (.hashSet (idKey id) (str "nickname") v) () (.coloring id)
  | color (id v : Bytes) :
      ReadMove (.coloring id) (.hashSet (idKey id) (str "personalColor") v) () .idle

/-- A thread returns at rest, and is undefined only after a missing field. -/
def Ending {α : Type} : Option α → Stage → Prop
  | some _, y => y = .idle
  | none, y => y = .bad

section Conformance

variable {gen : Generated} {t : Token}

theorem conforms_quiet {α : Type} {x : Stage} {c : Command} {k : Reply c → Handler α}
    {fin : Option α → Stage → Prop} (hx : x.field = none) (hc : SparesAccounts c)
    (hk : ∀ r, Conforms ReadMove fin x (k r)) : Conforms ReadMove fin x (.issue c k) :=
  fun r => ⟨x, .quiet x c r hx hc, hk r⟩

theorem conforms_creationAccount (data : Bytes) :
    Conforms ReadMove Ending .idle (handleRequestCreationAccount gen t data) := by
  have hpost : ∀ r : PMResponseRegisterAccount,
      Conforms ReadMove (Ending (α := Unit)) .idle (call (.postWrite t (.registerAccount r))) :=
    fun r => conforms_quiet rfl trivial fun _ => rfl
  unfold handleRequestCreationAccount creationAccountResponse
  cases gen.parseRegisterAccount data with
  | none => exact hpost _
  | some m =>
    simp only [Program.pure_eq_done]
    split_ifs
    · exact hpost _
    · exact hpost _
    · exact hpost _
    · refine conforms_quiet rfl trivial fun used => ?_
      cases used with
      | true => exact hpost _
      | false =>
        refine fun _ => ⟨_, .password m.id _, fun _ => ⟨_, .nickname m.id _, fun _ => ?_⟩⟩
        exact ⟨_, .color m.id _, hpost _⟩

theorem conforms_login (data : Bytes) (now : ℕ) :
    Conforms ReadMove Ending .idle (handleRequestLogin gen t data now) := by
  have hresponse : Conforms ReadMove Ending .idle (loginResponse gen t data now) := by
    unfold loginResponse
    cases gen.parseLogin data with
    | none => rfl
    | some m =>
      simp only [Program.call_bind, Program.pure_eq_done]
      intro known
      cases known with
      | false => exact ⟨.idle, .quiet _ _ _ rfl trivial, rfl⟩
      | true =>
        refine ⟨_, .found m.id, fun password => ?_⟩
        cases password with
        | none => exact ⟨.bad, .missing m.id _ (by simp [accountFields]), rfl⟩
        | some hash =>
          refine ⟨.idle, .settle m.id _ _ trivial, ?_⟩
          simp only [deref, Program.done_bind]
          split_ifs
          · rfl
          · refine conforms_quiet rfl trivial fun logined => ?_
            cases logined with
            | true => rfl
            | false =>
              refine conforms_quiet rfl (by simp [SparesAccounts]) fun _ => ?_
              refine conforms_quiet rfl (by simp [SparesAccounts]) fun _ => ?_
              refine conforms_quiet rfl (by simp [SparesAccounts]) fun _ => ?_
              exact conforms_quiet rfl trivial fun _ => rfl
  refine hresponse.bind (fun _ h => h) fun r y hy => ?_
  subst hy
  exact conforms_quiet rfl trivial fun _ => rfl

theorem conforms_playerData (data : Bytes) :
    Conforms ReadMove Ending .idle (handleRequestPlayerData gen t data) := by
  have hresponse : Conforms ReadMove Ending .idle (playerDataResponse gen t data) := by
    unfold playerDataResponse
    split
    · rfl
    · simp only [Program.call_bind, Program.pure_eq_done]
      refine conforms_quiet rfl trivial fun connected => ?_
      split
      · rfl
      · refine conforms_quiet rfl trivial fun loginId => ?_
        cases loginId with
        | none => rfl
        | some id =>
          intro known
          cases known with
          | false => exact ⟨.idle, .quiet _ _ _ rfl trivial, rfl⟩
          | true =>
            refine ⟨_, .found id, fun nickname => ?_⟩
            cases nickname with
            | none =>
              refine ⟨.bad, .missing id _ (by simp [accountFields]), ?_⟩
              exact conforms_quiet rfl trivial fun _ => conforms_quiet rfl trivial fun _ => rfl
            | some nickname =>
              refine ⟨.known id, .quiet _ _ _ rfl trivial, fun color => ?_⟩
              cases color with
              | none =>
                refine ⟨.bad, .missing id _ (by simp [accountFields]), ?_⟩
                exact conforms_quiet rfl trivial fun _ => rfl
              | some color =>
                refine ⟨.idle, .settle id _ _ trivial, ?_⟩
                exact conforms_quiet rfl trivial fun _ => rfl
  refine hresponse.bind (fun _ h => h) fun r y hy => ?_
  subst hy
  exact conforms_quiet rfl trivial fun _ => rfl

theorem defined_logoutClient : Defined (logoutClient t) := by
  simp only [logoutClient, Program.call_bind]
  intro connected
  cases connected with
  | false => trivial
  | true =>
    intro loginId
    cases loginId <;> simp [Defined, Program.call]

/-- Every handler reads and writes accounts by these moves. -/
theorem body_conforms (a : Activity) : Conforms ReadMove Ending .idle (a.body gen t) := by
  have hspare : ∀ p : Handler Unit, Issues Quiet p → Defined p →
      Conforms ReadMove Ending .idle p := fun p hp hd =>
    (hp.mono fun _ => spares_of_quiet).conforms_of_defined
      (fun c r hc => .quiet _ c r rfl hc) (fun _ => rfl) hd
  have hquiet := issues_quiet_body gen t
  cases a with
  | accept now =>
    refine hspare _ (hquiet (.accept now) (by simp)) ?_
    simp [Activity.body, acceptClient, addClient, setPacketHandler, setErrorHandler, scopedLock,
      Defined, Program.call]
  | register data => exact conforms_creationAccount data
  | login data now => exact conforms_login data now
  | playerData data => exact conforms_playerData data
  | logout data =>
    refine hspare _ (hquiet (.logout data) (by simp)) ?_
    simp only [Activity.body, handleRequestLogout]
    split
    · exact defined_logoutClient
    · trivial
  | disconnect =>
    refine hspare _ (hquiet .disconnect (by simp)) (defined_logoutClient.bind fun _ => ?_)
    simp [removeClient, scopedLock, Defined, Program.call]

end Conformance

/-! ## What the store holds at each stage -/

/-- Every account has a password, and the other two fields unless some thread is
about to write them. -/
structure Readable (s : Redis) (stage : Token → Stage) : Prop where
  password : ∀ id, s.existsKey (idKey id) = true → s.hashGet (idKey id) (str "password") ≠ none
  nickname : ∀ id, s.existsKey (idKey id) = true →
    s.hashGet (idKey id) (str "nickname") ≠ none ∨ ∃ u, stage u = .naming id
  color : ∀ id, s.existsKey (idKey id) = true →
    s.hashGet (idKey id) (str "personalColor") ≠ none ∨
      ∃ u, stage u = .naming id ∨ stage u = .coloring id
  account : ∀ u id, (stage u).account = some id → s.existsKey (idKey id) = true
  sound : ∀ u, stage u ≠ .bad

/-- The field that is read is not about to be written. -/
def FieldWritten (stage : Token → Stage) : Command → Prop
  | .hashGet key f => ∀ id, key = idKey id →
      (f = str "nickname" → ∀ u, stage u ≠ .naming id) ∧
      (f = str "personalColor" → ∀ u, stage u ≠ .naming id ∧ stage u ≠ .coloring id)
  | _ => True

section Steps

variable {w w' : World} {stage : Token → Stage} {t : Token} {x : Stage} {c : Command} {r : Reply c}

theorem readable_initial {s : Redis} (h : AccountsComplete s) :
    Readable s (fun _ => .idle) where
  password id hid := h id hid _ (by simp [accountFields])
  nickname id hid := .inl (h id hid _ (by simp [accountFields]))
  color id hid := .inl (h id hid _ (by simp [accountFields]))
  account u id hu := by cases hu
  sound u hu := by cases hu

/-- Reading the same accounts. -/
theorem Readable.congr {s s' : Redis} (h : Readable s stage)
    (ha : accountsOf s' = accountsOf s) : Readable s' stage := by
  have hget : ∀ id f, s'.hashGet (idKey id) f = s.hashGet (idKey id) f :=
    fun id f => congrFun (congrFun ha id) f
  have hex : ∀ id, s'.existsKey (idKey id) = s.existsKey (idKey id) := by
    intro id
    apply Bool.eq_iff_iff.mpr
    simp only [Store.existsKey_iff, hget]
  exact ⟨fun id hid => hget id _ ▸ h.password id (hex id ▸ hid),
    fun id hid => hget id _ ▸ h.nickname id (hex id ▸ hid),
    fun id hid => hget id _ ▸ h.color id (hex id ▸ hid),
    fun u id hu => hex id ▸ h.account u id hu, h.sound⟩

/-- A thread that is not writing moves on. -/
theorem Readable.move {s : Redis} (h : Readable s stage)
    (hn : ∀ id, stage t ≠ .naming id) (hc : ∀ id, stage t ≠ .coloring id)
    (hx : x ≠ .bad) (hk : ∀ id, x.account = some id → s.existsKey (idKey id) = true) :
    Readable s (Function.update stage t x) where
  password := h.password
  nickname id hid := by
    refine (h.nickname id hid).imp_right fun hw => ?_
    exact exists_update (fun y : Stage => y = .naming id) hw (hn id)
  color id hid := by
    refine (h.color id hid).imp_right fun hw => ?_
    exact exists_update (fun y : Stage => y = .naming id ∨ y = .coloring id) hw (by simp [hn, hc])
  account := by
    refine (Function.forall_update_iff stage fun _ y =>
      ∀ id, y.account = some id → s.existsKey (idKey id) = true).mpr ⟨hk, fun u _ => h.account u⟩
  sound := by
    exact (Function.forall_update_iff stage fun _ y => y ≠ .bad).mpr ⟨hx, fun u _ => h.sound u⟩

/-- A thread writes a field of the account `id` and goes on to the stage `x`. -/
theorem Readable.write {s : Redis} {id f v : Bytes} (h : Readable s stage)
    (hp : f = str "password" ∨ s.hashGet (idKey id) (str "password") ≠ none)
    (hn : f = str "nickname" ∨ x = .naming id ∨
      (s.hashGet (idKey id) (str "nickname") ≠ none ∨ ∃ u, u ≠ t ∧ stage u = .naming id))
    (hc : f = str "personalColor" ∨ x = .naming id ∨ x = .coloring id)
    (hother : ∀ j, j ≠ id → stage t ≠ .naming j ∧ stage t ≠ .coloring j)
    (hx : x ≠ .bad) (hk : ∀ j, x.account = some j → j = id) :
    Readable (s.hashSet (idKey id) f v) (Function.update stage t x) := by
  have hwritten : (s.hashSet (idKey id) f v).hashGet (idKey id) f ≠ none := by
    simp [Store.hashGet_hashSet]
  have hkept : ∀ j g, s.hashGet (idKey j) g ≠ none →
      (s.hashSet (idKey id) f v).hashGet (idKey j) g ≠ none := by
    intro j g hg
    rw [Store.hashGet_hashSet]
    split_ifs <;> simp [hg]
  have hex : ∀ j, j ≠ id → (s.hashSet (idKey id) f v).existsKey (idKey j) = true →
      s.existsKey (idKey j) = true := by
    intro j hj hid
    simpa [Store.existsKey_hashSet, hj] using hid
  refine ⟨fun j hj => ?_, fun j hj => ?_, fun j hj => ?_, ?_, ?_⟩
  · by_cases hji : j = id
    · subst hji
      rcases hp with rfl | hp
      · exact hwritten
      · exact hkept j _ hp
    · exact hkept j _ (h.password j (hex j hji hj))
  · by_cases hji : j = id
    · subst hji
      rcases hn with rfl | rfl | hrest
      · exact .inl hwritten
      · exact .inr ⟨t, by simp⟩
      · refine hrest.imp (hkept j _) fun hw => ?_
        obtain ⟨u, hut, hu⟩ := hw
        exact ⟨u, by rwa [Function.update_of_ne hut]⟩
    · refine (h.nickname j (hex j hji hj)).imp (hkept j _) fun hw => ?_
      exact exists_update (fun y : Stage => y = .naming j) hw (hother j hji).1
  · by_cases hji : j = id
    · subst hji
      rcases hc with rfl | rfl | rfl
      · exact .inl hwritten
      · exact .inr ⟨t, .inl (by simp)⟩
      · exact .inr ⟨t, .inr (by simp)⟩
    · refine (h.color j (hex j hji hj)).imp (hkept j _) fun hw => ?_
      exact exists_update (fun y : Stage => y = .naming j ∨ y = .coloring j) hw
        (by simp [hother j hji])
  · refine (Function.forall_update_iff stage fun _ y => ∀ j, y.account = some j →
      (s.hashSet (idKey id) f v).existsKey (idKey j) = true).mpr
        ⟨fun j hj => ?_, fun u _ j hj => ?_⟩
    · obtain rfl := hk j hj
      simp [Store.existsKey_hashSet]
    · simp [Store.existsKey_hashSet, h.account u j hj]
  · exact (Function.forall_update_iff stage fun _ y => y ≠ .bad).mpr ⟨hx, fun u _ => h.sound u⟩

/-- One command keeps the accounts readable, unless it reads a field that is
about to be written. -/
theorem Readable.step (h : Readable w.redis stage) (hm : ReadMove (stage t) c r x)
    (he : exec c w = some (r, w')) (hok : FieldWritten stage c) :
    Readable w'.redis (Function.update stage t x) := by
  generalize hy : stage t = y at hm
  cases hm with
  | quiet y c r _ hc =>
    rw [← hy, Function.update_eq_self]
    exact h.congr (accountsOf_spares hc he)
  | settle id c r hc =>
    refine (h.congr (accountsOf_spares hc he)).move ?_ ?_ ?_ ?_ <;> simp [hy, Stage.account]
  | found id =>
    simp only [exec, Option.some.injEq, Prod.mk.injEq] at he
    obtain ⟨hex, rfl⟩ := he
    refine h.move (by simp [hy]) (by simp [hy]) (by simp) fun j hj => ?_
    rwa [← Option.some.inj hj]
  | missing id f hf =>
    simp only [exec, Option.some.injEq, Prod.mk.injEq] at he
    have hex : w.redis.existsKey (idKey id) = true := h.account t id (by rw [hy]; rfl)
    obtain ⟨hn, hc⟩ := hok id rfl
    -- none of the three fields can be missing
    simp only [accountFields, List.mem_cons, List.not_mem_nil, or_false] at hf
    rcases hf with rfl | rfl | rfl
    · exact absurd he.1 (h.password id hex)
    · refine absurd he.1 ((h.nickname id hex).resolve_right ?_)
      rintro ⟨u, hu⟩
      exact hn rfl u hu
    · refine absurd he.1 ((h.color id hex).resolve_right ?_)
      rintro ⟨u, hu⟩
      exact hu.elim (hc rfl u).1 (hc rfl u).2
  | password id v =>
    cases executed_of_exec he
    refine h.write (.inl rfl) (.inr (.inl rfl)) (.inr (.inl rfl)) (by simp [hy]) (by simp) ?_
    exact fun j hj => (Option.some.inj hj).symm
  | nickname id v =>
    cases executed_of_exec he
    have hex : w.redis.existsKey (idKey id) = true := h.account t id (by rw [hy]; rfl)
    refine h.write (.inr (h.password id hex)) (.inl rfl) (.inr (.inr rfl)) ?_ (by simp) ?_
    · intro j hj
      simpa [hy] using hj.symm
    · exact fun j hj => (Option.some.inj hj).symm
  | color id v =>
    cases executed_of_exec he
    have hex : w.redis.existsKey (idKey id) = true := h.account t id (by rw [hy]; rfl)
    refine h.write (.inr (h.password id hex)) (.inr (.inr ?_)) (.inl rfl) ?_ (by simp)
      (by simp [Stage.account])
    · refine (h.nickname id hex).imp_right fun hwriting => ?_
      obtain ⟨u, hu⟩ := hwriting
      refine ⟨u, ?_, hu⟩
      rintro rfl
      rw [hy] at hu
      cases hu
    · intro j hj
      simpa [hy] using hj.symm

end Steps

/-! ## Runs -/

/-- The side condition on a run: when a thread reads the nickname or the color of
an account, no registration has yet to write that field, having written the
password. -/
def NotBeingWritten (p : ServerPool) : Action Token Activity → Prop
  | .start _ _ => True
  | .advance t => ∀ id,
    (p.next t = some (.hashGet (idKey id) (str "nickname")) →
      ∀ u v, p.next u ≠ some (.hashSet (idKey id) (str "nickname") v)) ∧
    (p.next t = some (.hashGet (idKey id) (str "personalColor")) →
      ∀ u v, p.next u ≠ some (.hashSet (idKey id) (str "nickname") v) ∧
        p.next u ≠ some (.hashSet (idKey id) (str "personalColor") v))

section Runs

variable {gen : Generated} {p p' : ServerPool} {stage : Token → Stage} {act : Action Token Activity}

/-- A thread that has a field to write writes it next. -/
theorem next_of_field (hst : Staged (fun _ _ => ReadMove) Ending .idle p stage) {u : Token}
    {id f : Bytes} (hu : (stage u).field = some (id, f)) :
    ∃ v, p.next u = some (.hashSet (idKey id) f v) := by
  cases ht : p.threads u with
  | none =>
    rw [hst.rest_of_idle ht] at hu
    cases hu
  | some q =>
    obtain ⟨a, q⟩ := q
    have hcf := hst.conforms ht
    have hnext : p.next u = q.next := by simp [Pool.next, ht]
    rw [hnext]
    generalize stage u = x at hu hcf
    cases q with
    | done =>
      obtain rfl : x = .idle := hcf
      cases hu
    | undefined =>
      obtain rfl : x = .bad := hcf
      cases hu
    | issue c k =>
      obtain ⟨y, hy, -⟩ := hcf default
      generalize (default : Reply c) = r at hy
      cases hy with
      | quiet _ _ _ hx =>
        rw [hx] at hu
        cases hu
      | nickname id v =>
        cases hu
        exact ⟨v, rfl⟩
      | color id v =>
        cases hu
        exact ⟨v, rfl⟩
      | settle | found | missing | password => cases hu

/-- The accounts can be read at every stage that a thread is in. -/
def ReadsPresent (p : ServerPool) : Prop :=
  ∃ stage, Staged (fun _ _ => ReadMove) Ending .idle p stage ∧ Readable p.shared.redis stage

theorem ReadsPresent.step (h : ReadsPresent p) (hok : NotBeingWritten p act)
    (hs : (server gen).step p act = some p') : ReadsPresent p' := by
  obtain ⟨stage, hst, hread⟩ := h
  rcases hst.step (fun _ a => body_conforms a) (fun _ hy => hy) hs with ⟨hst', hsh, -⟩ |
    ⟨t, a, c, k, r, x, rfl, ht, he, hm, -, hst'⟩
  · exact ⟨stage, hst', hsh ▸ hread⟩
  · refine ⟨_, hst', hread.step hm he ?_⟩
    have hnext : p.next t = some c := by simp [Pool.next, ht, Program.next]
    cases c with
    | hashGet key f =>
      rintro id rfl
      obtain ⟨hn, hc⟩ := hok id
      constructor
      · rintro rfl u hu
        obtain ⟨v, hv⟩ := next_of_field hst (u := u) (by rw [hu]; rfl)
        exact hn hnext u v hv
      · rintro rfl u
        refine ⟨fun hu => ?_, fun hu => ?_⟩
        · obtain ⟨v, hv⟩ := next_of_field hst (u := u) (by rw [hu]; rfl)
          exact (hc hnext u v).1 hv
        · obtain ⟨v, hv⟩ := next_of_field hst (u := u) (by rw [hu]; rfl)
          exact (hc hnext u v).2 hv
    | _ => trivial

theorem ReadsPresent.defined (h : ReadsPresent p) (t : Token) : p.undefinedAt t = false := by
  obtain ⟨stage, hst, hread⟩ := h
  cases ht : p.threads t with
  | none => simp [Pool.undefinedAt, ht]
  | some q =>
    obtain ⟨a, q⟩ := q
    cases q with
    | undefined => exact absurd (hst.conforms ht) (hread.sound t)
    | done | issue => simp [Pool.undefinedAt, ht]

/-- No empty optional is dereferenced: from a store with complete accounts, in
every run in which the nickname and the color of an account are not read between
the first and the last write of its registration, no handler runs into undefined
behaviour. -/
theorem dereferences_present (gen : Generated) (redis : Redis) (hredis : AccountsComplete redis)
    (acts : List (Action Token Activity)) (p : ServerPool)
    (hr : runs (server gen).step (Pool.idle (World.initial redis)) acts = some p)
    (hok : Along (server gen).step NotBeingWritten (Pool.idle (World.initial redis)) acts)
    (t : Token) : p.undefinedAt t = false := by
  have hinit : ReadsPresent (Pool.idle (World.initial redis)) :=
    ⟨_, staged_idle _, readable_initial hredis⟩
  have hinv : ReadsPresent p := invariant_along (fun _ _ _ h hok hs => h.step hok hs) hinit hok hr
  exact hinv.defined t

/-- A registration of another account. -/
def otherRegister : Bytes :=
  wireField 1 (str "cd") ++ wireField 2 (str "zz") ++ wireField 3 (str "other") ++
    wireField 4 (str "blue")

/-- Client 1 registers an account, logs in to it and asks for its data, while client 2 has
written the password of another account and not yet its nickname. -/
def askDuringOtherRegistration : List (Action Token Activity) := List.flatten
  [twoClients, [.start 1 (.login sampleLogin 5)], advances 1 9,
    [.start 2 (.register otherRegister)], advances 2 2, [.start 1 (.playerData [])],
    advances 1 8, advances 2 4]

/-- When a thread reads a field, none of `is` is about to set one of the same key. -/
def readsAlone (is : List Token) (p : ServerPool) : Action Token Activity → Bool
  | .start _ _ => true
  | .advance t =>
    match p.next t with
    | some (.hashGet key _) => is.all fun u =>
      match p.next u with
      | some (.hashSet key' _ _) => decide (key' ≠ key)
      | _ => true
    | _ => true

theorem notBeingWritten_of_readsAlone {is : List Token} (hw : Within is p)
    (h : readsAlone is p act = true) : NotBeingWritten p act := by
  cases act with
  | start => trivial
  | advance t =>
    intro id
    have hread : ∀ f g u v, p.next t = some (.hashGet (idKey id) f) →
        p.next u ≠ some (.hashSet (idKey id) g v) := by
      intro f g u v ht hu
      by_cases hmem : u ∈ is
      · simp only [readsAlone, ht, List.all_eq_true] at h
        have hkeys := h u hmem
        simp [hu] at hkeys
      · rw [hw.next hmem] at hu
        cases hu
    exact ⟨fun ht u v => hread _ _ u v ht, fun ht u v => ⟨hread _ _ u v ht, hread _ _ u v ht⟩⟩

theorem dereferences_present_other_registration : ∃ p,
    runs (server wireGenerated).step (Pool.idle (World.initial Store.empty))
      askDuringOtherRegistration = some p ∧
    (1, .playerData ⟨true, str "ok", str "nick", str "red"⟩) ∈ p.shared.posted ∧
    p.undefinedAt 1 = false := by
  have hrun : (runs (server wireGenerated).step (Pool.idle (World.initial Store.empty))
      askDuringOtherRegistration).map (fun p => decide ((1, Response.playerData
        ⟨true, str "ok", str "nick", str "red"⟩) ∈ p.shared.posted)) = some true := by
    decide +kernel
  obtain ⟨p, hp, hmem⟩ := Option.map_eq_some_iff.mp hrun
  have halone : Along (server wireGenerated).step (fun p act => readsAlone [1, 2] p act = true)
      (Pool.idle (World.initial Store.empty)) askDuringOtherRegistration := by decide +kernel
  have hok : Along (server wireGenerated).step NotBeingWritten
      (Pool.idle (World.initial Store.empty)) askDuringOtherRegistration :=
    along_within [1, 2] (fun _ _ hw h => notBeingWritten_of_readsAlone hw h) (by decide)
      (fun _ _ => rfl) halone
  exact ⟨p, hp, of_decide_eq_true hmem, dereferences_present wireGenerated Store.empty
    accountsComplete_empty _ p hp hok 1⟩

/-- Client 2 logs in to the account of client 1 and asks for its data while client
1 has written the password alone. -/
def askDuringRegistration : List (Action Token Activity) := List.flatten
  [[.start 1 (.accept 0)], advances 1 22, [.start 2 (.accept 0)], advances 2 22,
    [.start 1 (.register sampleRegister)], advances 1 2, [.start 2 (.login sampleLogin 5)],
    advances 2 9, [.start 2 (.playerData [])], advances 2 6]

/-- The nickname of an account that is still being written is missing. -/
theorem nickname_missing_during_registration :
    ¬ ∀ (gen : Generated) (redis : Redis), AccountsComplete redis →
      ∀ (acts : List (Action Token Activity)) (p : ServerPool),
        runs (server gen).step (Pool.idle (World.initial redis)) acts = some p →
        ∀ t, p.undefinedAt t = false := by
  intro hall
  have hrun : (runs (server wireGenerated).step (Pool.idle (World.initial Store.empty))
      askDuringRegistration).map (fun p => p.undefinedAt 2) = some true := by decide +kernel
  obtain ⟨p, hp, hbad⟩ := Option.map_eq_some_iff.mp hrun
  have hgood := hall wireGenerated Store.empty accountsComplete_empty _ p hp 2
  rw [hbad] at hgood
  cases hgood

end Runs

end IsolationServer.AccountReads
