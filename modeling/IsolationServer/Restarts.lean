import IsolationServer.Registration
import IsolationServer.Sequential
import IsolationServer.Startup

/-!
# Accounts across restarts

The store outlives the server. A restart can come at any time; it drops all
threads and connections, and the startup cleanup of the next server deletes the
keys that its two scans report. Accounts are not among them, so an account that
has been answered `ok` stays as it is over any number of servers.
-/
namespace IsolationServer.Restarts
open CommandPrograms CreationProtocol HashStore Registration Runs Startup

/-- What happens over the life of the store: a scheduling step of the running
server, or a restart, given by what its two scans return. -/
inductive Turn where
  | serve (act : Action Token Activity)
  | restart (scanResult scanResult2 : List Bytes)

/-- The scans return matching keys, in any number and with any repetition. -/
def scansMatch (scanResult scanResult2 : List Bytes) : Bool :=
  scanResult.all (globMatch (str "client:*")) && scanResult2.all (globMatch (str "logined:*"))

/-- The next server, started on the store of the last one. The trace goes on. -/
def restarted (p : ServerPool) (scanResult scanResult2 : List Bytes) : ServerPool :=
  ⟨World.initial ((scanResult ++ scanResult2).foldl Store.del p.shared.redis), fun _ => none,
    p.trace⟩

def turn (gen : Generated) (p : ServerPool) : Turn → Option ServerPool
  | .serve act => (server gen).step p act
  | .restart scanResult scanResult2 =>
    if scansMatch scanResult scanResult2 = true then some (restarted p scanResult scanResult2)
    else none

/-- What the startup sequence of `main` does to the store is a restart with some
scan results. -/
theorem restart_of_startupCleanup {s s' : Redis} {fuel : ℕ} (hfuel : 0 < fuel) (scanner : Scanner s)
    (h : startupCleanup fuel scanner = some s') : ∃ scanResult scanResult2,
      scansMatch scanResult scanResult2 = true ∧
        s' = (scanResult ++ scanResult2).foldl Store.del s := by
  rw [startupCleanup_eq scanner hfuel] at h
  refine ⟨_, _, ?_, (Option.some.inj h).symm⟩
  simp only [scansMatch, Bool.and_eq_true, List.all_eq_true]
  exact ⟨scanner.matching _ _, scanner.matching _ _⟩

/-- The side condition on a run: no two registrations of the same id overlap. -/
def TurnsDisjoint (gen : Generated) (p : ServerPool) : Turn → Prop
  | .serve act => RegistrationsDisjoint gen p act
  | .restart _ _ => True

section Accounts

variable {gen : Generated} {p p' : ServerPool} {a : Turn} {scanResult scanResult2 : List Bytes}

/-- No account is deleted, whatever its id. -/
theorem accountsOf_restarted (h : scansMatch scanResult scanResult2 = true) :
    accountsOf (restarted p scanResult scanResult2).shared.redis = accountsOf p.shared.redis := by
  simp only [scansMatch, Bool.and_eq_true, List.all_eq_true] at h
  have hspared : ∀ id, idKey id ∉ scanResult ++ scanResult2 := by
    intro id hmem
    rcases List.mem_append.mp hmem with hmem | hmem
    · obtain ⟨rest, hrest⟩ := (globMatch_client _).mp (h.1 _ hmem)
      have hhead : some 99 = some (105 : UInt8) := congrArg List.head? hrest
      exact absurd hhead (by decide)
    · obtain ⟨rest, hrest⟩ := (globMatch_logined _).mp (h.2 _ hmem)
      have hhead : some 108 = some (105 : UInt8) := congrArg List.head? hrest
      exact absurd hhead (by decide)
  funext id f
  change ((scanResult ++ scanResult2).foldl Store.del p.shared.redis).hashGet (idKey id) f = _
  rw [hashGet_foldl_del, if_neg (hspared id)]
  rfl

/-- The invariant of a run over several servers. -/
def Lasting (gen : Generated) (p : ServerPool) : Prop :=
  (∃ stage, Registered gen p stage) ∧ OneRegistration gen p

theorem lasting_idle (redis : Redis) : Lasting gen (Pool.idle (World.initial redis)) :=
  ⟨⟨_, registered_idle redis⟩, oneEach_idle _ _⟩

theorem Lasting.restart (h : Lasting gen p) (hscan : scansMatch scanResult scanResult2 = true) :
    Lasting gen (restarted p scanResult scanResult2) := by
  obtain ⟨⟨stage, hreg⟩, -⟩ := h
  have haccounts := accountsOf_restarted (p := p) hscan
  have hidle : Staged (RegisterMove gen) (Resting .idle) .idle (restarted p scanResult scanResult2)
      (fun _ => .idle) := fun _ => rfl
  refine ⟨⟨_, hidle, inv_initial _ _, ?_, hreg.unique⟩, ⟨_, hidle⟩, ?_⟩
  · intro e he m hm
    rw [haccounts]
    exact ⟨(hreg.settled e he m hm).1, fun _ h => by cases h⟩
  · intro i j a b k ha
    cases ha

theorem Lasting.step (h : Lasting gen p) (hok : TurnsDisjoint gen p a)
    (hs : turn gen p a = some p') : Lasting gen p' := by
  cases a with
  | serve act =>
    obtain ⟨⟨stage, hreg⟩, hone⟩ := h
    exact ⟨hreg.step hs hone.registerTestAlone, hone.step (body_conforms gen) hok hs⟩
  | restart scanResult scanResult2 =>
    simp only [turn] at hs
    split at hs
    · rename_i hscan
      obtain rfl := Option.some.inj hs
      exact h.restart hscan
    · cases hs

/-- A registration of an account that exists is refused. -/
theorem refused_of_exists {w : World} {t : Token} {data : Bytes} {m : PMRequestRegisterAccount}
    (hm : gen.parseRegisterAccount data = some m) (hex : w.redis.existsKey (idKey m.id) = true) :
    ∃ message, Program.run exec (handleRequestCreationAccount gen t data) w =
      some ((), w.post t (.registerAccount ⟨false, message⟩)) := by
  have hverdict : ∃ message, registerVerdict gen w.redis data = .refused message := by
    cases hv : registerVerdict gen w.redis data with
    | granted q =>
      obtain ⟨hq, -, -, -, hfree⟩ := registerVerdict_eq_granted.mp hv
      obtain rfl : q = m := Option.some.inj (hq.symm.trans hm)
      rw [hex] at hfree
      cases hfree
    | refused message => exact ⟨message, rfl⟩
    | undefined =>
      unfold registerVerdict at hv
      rw [hm] at hv
      dsimp only at hv
      split_ifs at hv
  obtain ⟨message, hv⟩ := hverdict
  refine ⟨message, ?_⟩
  simp [run_creationAccount, World.handle, hv, Verdict.elim]

/-- Accounts are permanent and immutable: in every run over any number of
servers in which no two registrations of the same id overlap, an account that
has been answered `result = true` has the fields of its request; every later
answer to a registration of that id is `result = false`; and so is the answer
that such a request would be given now. -/
theorem accounts_permanent (gen : Generated) (redis : Redis) (turns : List Turn) (p : ServerPool)
    (hr : runs (turn gen) (Pool.idle (World.initial redis)) turns = some p)
    (hok : Along (turn gen) (TurnsDisjoint gen) (Pool.idle (World.initial redis)) turns) :
    (∀ e ∈ p.trace, ∀ m, AccountAnswered gen m e →
      p.shared.redis.hashGet (idKey m.id) (str "password") = some (gen.sha256 m.password) ∧
      p.shared.redis.hashGet (idKey m.id) (str "nickname") = some m.nickname ∧
      p.shared.redis.hashGet (idKey m.id) (str "personalColor") = some m.personalcolor ∧
      ∀ t data m', gen.parseRegisterAccount data = some m' → m'.id = m.id →
        ∃ message, Program.run exec (handleRequestCreationAccount gen t data) p.shared =
          some ((), p.shared.post t (.registerAccount ⟨false, message⟩))) ∧
    p.trace.Pairwise fun e f => ∀ m m' (r : PMResponseRegisterAccount), AccountAnswered gen m e →
      registerRequest gen f.activity = some m' → m'.id = m.id →
      f.command = .postWrite f.thread (.registerAccount r) → r.result = false := by
  obtain ⟨⟨stage, hreg⟩, -⟩ : Lasting gen p :=
    invariant_along (fun _ _ _ h hok hs => h.step hok hs) (lasting_idle redis) hok hr
  have hfields : ∀ e ∈ p.trace, ∀ m, AccountAnswered gen m e →
      ∀ f, p.shared.redis.hashGet (idKey m.id) f = accountField gen m f := by
    intro e he m hm f
    rw [← written_account]
    exact (hreg.settled e he m hm).1 f
  constructor
  · intro e he m hm
    have hf := hfields e he m hm
    have hpassword : p.shared.redis.hashGet (idKey m.id) (str "password") =
        some (gen.sha256 m.password) := by simp [hf, accountField]
    have hn : str "nickname" ≠ str "password" := by decide
    have hcp : str "personalColor" ≠ str "password" := by decide
    have hcn : str "personalColor" ≠ str "nickname" := by decide
    refine ⟨hpassword, by simp [hf, accountField, hn], by simp [hf, accountField, hcp, hcn], ?_⟩
    intro t data m' hm' hid
    exact refused_of_exists hm' (hid ▸ Store.existsKey_of_hashGet hpassword)
  · refine hreg.unique.imp fun hunique m m' r hm hm' hid hcommand => ?_
    by_contra hr
    exact hunique m m' hm ⟨hm', r, by simpa using hr, hcommand⟩ hid.symm

/-- Client 1 registers an account. A restart cuts its login off before the handler has
answered, and the next client 1 tries to register the same id. -/
def registerAfterRestart : List Turn := List.flatten
  [[.serve (.start 1 (.accept 0))], (advances 1 22).map .serve,
    [.serve (.start 1 (.register sampleRegister))], (advances 1 6).map .serve,
    [.serve (.start 1 (.login sampleLogin 5))], (advances 1 4).map .serve,
    [.restart [clientKey 1] [loginedKey (str "ab"), loginedKey (str "ab")]],
    [.serve (.start 1 (.accept 0))], (advances 1 22).map .serve,
    [.serve (.start 1 (.register rivalRegister))], (advances 1 3).map .serve]

def Turn.isBy (t : Token) : Turn → Prop
  | .serve act => act.thread = t
  | .restart _ _ => True

instance (t : Token) : ∀ a, Decidable (Turn.isBy t a)
  | .serve act => inferInstanceAs (Decidable (act.thread = t))
  | .restart _ _ => .isTrue trivial

/-- Registrations of a single client do not overlap. -/
theorem turnsDisjoint_single (t : Token) (turns : List Turn) (hturns : ∀ a ∈ turns, a.isBy t)
    (hp : Within [t] p) : Along (turn gen) (TurnsDisjoint gen) p turns := by
  refine Along.of_invariant (I := Within [t]) ?_ ?_ turns p hp hturns
  · intro p a p' h ha hs
    cases a with
    | serve act => exact h.step (List.mem_singleton.mpr ha) hs
    | restart scanResult scanResult2 =>
      simp only [turn] at hs
      split at hs
      · obtain rfl := Option.some.inj hs
        exact fun _ _ => rfl
      · cases hs
  · intro p a h ha
    cases a with
    | serve act => exact h.disjoint _ ha
    | restart => trivial

theorem accounts_permanent_after_restart : ∃ p,
    runs (turn wireGenerated) (Pool.idle (World.initial Store.empty)) registerAfterRestart =
      some p ∧
    p.shared.posted = [(1, .registerAccount ⟨false, str "idAleadyInUse"⟩)] ∧
    p.shared.redis.hashGet (idKey (str "ab")) (str "nickname") = some (str "nick") := by
  let e : ServerEvent :=
    ⟨1, .register sampleRegister, .postWrite 1 (.registerAccount ⟨true, str "ok"⟩)⟩
  have hrun : (runs (turn wireGenerated) (Pool.idle (World.initial Store.empty))
      registerAfterRestart).map (fun p => (decide (e ∈ p.trace), p.shared.posted)) =
      some (true, [(1, .registerAccount ⟨false, str "idAleadyInUse"⟩)]) := by decide +kernel
  obtain ⟨p, hp, hobs⟩ := Option.map_eq_some_iff.mp hrun
  simp only [Prod.mk.injEq, decide_eq_true_eq] at hobs
  have hok : Along (turn wireGenerated) (TurnsDisjoint wireGenerated)
      (Pool.idle (World.initial Store.empty)) registerAfterRestart :=
    turnsDisjoint_single 1 _ (by decide) fun _ _ => rfl
  have hans : AccountAnswered wireGenerated ⟨str "ab", str "pw", str "nick", str "red"⟩ e :=
    ⟨by decide, ⟨true, str "ok"⟩, rfl, rfl⟩
  obtain ⟨-, hnick, -⟩ :=
    (accounts_permanent wireGenerated Store.empty _ p hp hok).1 e hobs.1 _ hans
  exact ⟨p, hp, hobs.2, hnick⟩

end Accounts

end IsolationServer.Restarts
