import IsolationServer.Sequential

/-!
# Accounts with all their fields

The password, the nickname and the color of an account are written by three
commands. A registration whose second or third write fails leaves an account
behind that lacks a field; so does, for a while, every registration that is
still writing.
-/
namespace IsolationServer.CompleteAccounts
open CommandPrograms HashStore Runs

/-- The fields of an account that the handlers read. -/
def accountFields : List Bytes := [str "password", str "nickname", str "personalColor"]

/-- Every account in the store has all its fields. -/
def AccountsComplete (s : Redis) : Prop :=
  ∀ id, s.existsKey (idKey id) = true → ∀ f ∈ accountFields, s.hashGet (idKey id) f ≠ none

theorem accountsComplete_empty : AccountsComplete Store.empty := by
  intro id hid
  cases hid

/-! ## A registration whose commands can fail -/

/-- The commands that `redis++` carries out, any of which can throw. -/
def isRedis : Command → Bool
  | .existsKey _ => true
  | .hashGet _ _ => true
  | .hashSet _ _ _ => true
  | .del _ => true
  | .hashDel _ _ => true
  | .persist _ => true
  | _ => false

/-- The fields of `m` in the order in which they are written. -/
def accountWrites (gen : Generated) (m : PMRequestRegisterAccount) : List (Bytes × Bytes) :=
  [(str "password", gen.sha256 m.password), (str "nickname", m.nickname),
    (str "personalColor", m.personalcolor)]

def writeFields (s : Redis) (key : Bytes) (fields : List (Bytes × Bytes)) : Redis :=
  fields.foldl (fun s p => s.hashSet key p.1 p.2) s

/-- The registration passes all checks. -/
def Accepts (gen : Generated) (s : Redis) (data : Bytes) (m : PMRequestRegisterAccount) : Prop :=
  gen.parseRegisterAccount data = some m ∧ 2 ≤ m.id.length ∧ 2 ≤ m.password.length ∧
    2 ≤ m.nickname.length ∧ s.existsKey (idKey m.id) = false

section Failure

variable {gen : Generated} {t : Token} {data : Bytes} {w : World} {n : ℕ}

/-- The part of an accepted registration that writes and answers. -/
def creationWrites (gen : Generated) (t : Token) (m : PMRequestRegisterAccount) : Handler Unit := do
  call (.hashSet (idKey m.id) (str "password") (gen.sha256 m.password))
  call (.hashSet (idKey m.id) (str "nickname") m.nickname)
  call (.hashSet (idKey m.id) (str "personalColor") m.personalcolor)
  call (.postWrite t (.registerAccount { result := true, message := str "ok" }))

theorem runFailing_creationWrites (m : PMRequestRegisterAccount) :
    ∃ w', Program.runFailing exec isRedis n (creationWrites gen t m) w = some w' ∧
      w'.redis = writeFields w.redis (idKey m.id) ((accountWrites gen m).take n) := by
  simp only [creationWrites, Program.call_bind]
  match n with
  | 0 =>
    rw [Program.runFailing_throw exec rfl]
    exact ⟨w, rfl, rfl⟩
  | 1 =>
    rw [Program.runFailing_pass exec rfl, exec, Option.bind_some, Program.runFailing_throw exec rfl]
    exact ⟨_, rfl, rfl⟩
  | 2 =>
    rw [Program.runFailing_pass exec rfl, exec, Option.bind_some, Program.runFailing_pass exec rfl,
      exec, Option.bind_some, Program.runFailing_throw exec rfl]
    exact ⟨_, rfl, rfl⟩
  | n + 3 =>
    rw [Program.runFailing_pass exec rfl, exec, Option.bind_some, Program.runFailing_pass exec rfl,
      exec, Option.bind_some, Program.runFailing_pass exec rfl, exec, Option.bind_some, call,
      Program.call, Program.runFailing_safe exec rfl, exec, Option.bind_some,
      Program.runFailing_done]
    refine ⟨_, rfl, ?_⟩
    rw [List.take_of_length_le (by simp [accountWrites])]
    rfl

/-- The store after a registration whose `n`-th Redis command throws: the fields
written before it are there. -/
theorem runFailing_accepted {m : PMRequestRegisterAccount} (h : Accepts gen w.redis data m) :
    ∃ w', Program.runFailing exec isRedis n (handleRequestCreationAccount gen t data) w = some w' ∧
      w'.redis = writeFields w.redis (idKey m.id) ((accountWrites gen m).take (n - 1)) := by
  obtain ⟨hm, h1, h2, h3, h4⟩ := h
  simp only [handleRequestCreationAccount, creationAccountResponse, hm]
  rw [if_neg (by omega), if_neg (by omega), if_neg (by omega), Program.call_bind,
    Program.issue_bind]
  cases n with
  | zero =>
    rw [Program.runFailing_throw exec rfl]
    exact ⟨w, rfl, rfl⟩
  | succ n =>
    rw [Program.runFailing_pass exec rfl, exec, Option.bind_some, h4]
    exact runFailing_creationWrites m

/-- A registration that does not pass the checks writes nothing. -/
theorem runFailing_rejected (h : ∀ m, ¬ Accepts gen w.redis data m) :
    ∃ w', Program.runFailing exec isRedis n (handleRequestCreationAccount gen t data) w = some w' ∧
      w'.redis = w.redis := by
  have hanswer : ∀ (r : PMResponseRegisterAccount) (n : ℕ), ∃ w',
      Program.runFailing exec isRedis n (call (.postWrite t (.registerAccount r))) w = some w' ∧
        w'.redis = w.redis := by
    intro r n
    rw [call, Program.call, Program.runFailing_safe exec rfl, exec, Option.bind_some,
      Program.runFailing_done]
    exact ⟨_, rfl, rfl⟩
  simp only [handleRequestCreationAccount, creationAccountResponse]
  cases hm : gen.parseRegisterAccount data with
  | none => exact hanswer _ n
  | some m =>
    dsimp only
    split_ifs with h1 h2 h3
    · exact hanswer _ n
    · exact hanswer _ n
    · exact hanswer _ n
    · have hused : w.redis.existsKey (idKey m.id) = true := by
        by_contra hfree
        exact h m ⟨hm, by omega, by omega, by omega, by simpa using hfree⟩
      rw [Program.call_bind, Program.issue_bind]
      cases n with
      | zero =>
        rw [Program.runFailing_throw exec rfl]
        exact ⟨w, rfl, rfl⟩
      | succ n =>
        rw [Program.runFailing_pass exec rfl, exec, Option.bind_some, hused]
        exact hanswer _ n

/-- A new account is complete with none or with all of its fields. -/
theorem complete_writeFields_iff {s : Redis} (hs : AccountsComplete s)
    {m : PMRequestRegisterAccount} (hfree : s.existsKey (idKey m.id) = false) (k : ℕ) :
    AccountsComplete (writeFields s (idKey m.id) ((accountWrites gen m).take k)) ↔
      k ≠ 1 ∧ k ≠ 2 := by
  have hnone := (Store.existsKey_false_iff _ _).mp hfree
  have hpn : str "password" ≠ str "nickname" := by decide
  have hpc : str "password" ≠ str "personalColor" := by decide
  have hnc : str "nickname" ≠ str "personalColor" := by decide
  have hmissing : ∀ s' : Redis, s'.existsKey (idKey m.id) = true →
      s'.hashGet (idKey m.id) (str "personalColor") = none → ¬ AccountsComplete s' :=
    fun s' hex hmiss hcomp => hcomp m.id hex (str "personalColor") (by simp [accountFields]) hmiss
  match k with
  | 0 => simpa [writeFields] using hs
  | 1 =>
    refine iff_of_false (hmissing _ ?_ ?_) (by simp)
    · simp [writeFields, accountWrites, Store.existsKey_hashSet]
    · simp [writeFields, accountWrites, Store.hashGet_hashSet, hnone, hpc.symm]
  | 2 =>
    refine iff_of_false (hmissing _ ?_ ?_) (by simp)
    · simp [writeFields, accountWrites, Store.existsKey_hashSet]
    · simp [writeFields, accountWrites, Store.hashGet_hashSet, hnone, hpc.symm, hnc.symm]
  | k + 3 =>
    refine iff_of_true (fun id hid f hf => ?_) ⟨by omega, by omega⟩
    rw [List.take_of_length_le (by simp [accountWrites])] at hid ⊢
    by_cases hm : id = m.id
    · subst hm
      simp only [accountFields, List.mem_cons, List.not_mem_nil, or_false] at hf
      rcases hf with rfl | rfl | rfl
      · simp [writeFields, accountWrites, Store.hashGet_hashSet, hpn, hpc]
      · simp [writeFields, accountWrites, Store.hashGet_hashSet, hnc]
      · simp [writeFields, accountWrites, Store.hashGet_hashSet]
    · have hid' : s.existsKey (idKey id) = true := by
        simpa [writeFields, accountWrites, Store.existsKey_hashSet, hm] using hid
      simpa [writeFields, accountWrites, Store.hashGet_hashSet, hm] using hs id hid' f hf

/-- Registration is all-or-nothing when its `n`-th Redis command throws, unless
the request passes the checks and the command is the write of the nickname or of
the color. -/
theorem register_all_or_nothing_iff (gen : Generated) (t : Token) (data : Bytes) (w : World)
    (n : ℕ) (hw : AccountsComplete w.redis) :
    (∃ w', Program.runFailing exec isRedis n (handleRequestCreationAccount gen t data) w = some w' ∧
        AccountsComplete w'.redis) ↔
      ¬ ((∃ m, Accepts gen w.redis data m) ∧ (n = 2 ∨ n = 3)) := by
  by_cases h : ∃ m, Accepts gen w.redis data m
  · obtain ⟨m, hm⟩ := h
    obtain ⟨w', hrun, hredis⟩ := runFailing_accepted (t := t) (n := n) hm
    have hiff : AccountsComplete (writeFields w.redis (idKey m.id)
        ((accountWrites gen m).take (n - 1))) ↔ n - 1 ≠ 1 ∧ n - 1 ≠ 2 :=
      complete_writeFields_iff hw hm.2.2.2.2 (n - 1)
    rw [← hredis] at hiff
    rw [hrun]
    simp only [Option.some.injEq, exists_eq_left', hiff]
    have hex : ∃ m, Accepts gen w.redis data m := ⟨m, hm⟩
    simp only [hex, true_and]
    omega
  · obtain ⟨w', hrun, hredis⟩ := runFailing_rejected (t := t) (n := n) fun m hm => h ⟨m, hm⟩
    refine iff_of_true ⟨w', hrun, hredis ▸ hw⟩ fun hn => h hn.1

theorem register_all_or_nothing_password : ∃ w',
    Program.runFailing exec isRedis 1 (handleRequestCreationAccount wireGenerated 1 sampleRegister)
      (World.initial Store.empty) = some w' ∧ AccountsComplete w'.redis :=
  (register_all_or_nothing_iff wireGenerated 1 sampleRegister (World.initial Store.empty) 1
    accountsComplete_empty).mpr (by simp)

theorem accepts_sample : Accepts wireGenerated Store.empty sampleRegister
    ⟨str "ab", str "pw", str "nick", str "red"⟩ := by
  refine ⟨by decide, by decide, by decide, by decide, rfl⟩

/-- When the write of the nickname throws, the account is left with a password
alone. -/
theorem failed_nickname_leaves_half_account :
    ¬ ∀ (gen : Generated) (t : Token) (data : Bytes) (w : World) (n : ℕ),
      AccountsComplete w.redis → ∃ w',
        Program.runFailing exec isRedis n (handleRequestCreationAccount gen t data) w = some w' ∧
          AccountsComplete w'.redis := by
  intro hall
  obtain ⟨w', hrun, hcomplete⟩ := hall wireGenerated 1 sampleRegister (World.initial Store.empty) 2
    accountsComplete_empty
  obtain ⟨v, hrun', hredis⟩ := runFailing_accepted (t := 1) (n := 2)
    (w := World.initial Store.empty) accepts_sample
  obtain rfl : w' = v := Option.some.inj (hrun.symm.trans hrun')
  rw [hredis] at hcomplete
  exact ((complete_writeFields_iff accountsComplete_empty rfl 1).mp hcomplete).1 rfl

end Failure

end IsolationServer.CompleteAccounts
