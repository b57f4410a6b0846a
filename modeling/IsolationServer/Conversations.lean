import IsolationServer.Footprints
import IsolationServer.Serialisability

/-!
# Requests and their responses

Each registration, login and player-data request of a client is answered by one
response, in the order of the requests, whatever the handlers of the other clients do
meanwhile. A response is one that the handler would give alone, on some store.
-/
namespace IsolationServer.Conversations
open CommandPrograms HashStore Runs Serialisability

/-! ## Answers -/

/-- The handler of the request `a`, run alone in some world, gives this response. -/
def Answers (gen : Generated) (t : Token) (a : Activity) (response : Response) : Prop :=
  ∃ w w' : World, w.handle gen t a = some w' ∧ w'.posted = w.posted ++ [(t, response)]

@[simp] theorem existsKey_empty (key : Bytes) : (Store.empty : Redis).existsKey key = false := rfl

section Answers

variable {gen : Generated} {t : Token} {data : Bytes} {now : ℕ} (s : Redis)

theorem answers_register {message : Bytes} (h : registerVerdict gen s data = .refused message) :
    Answers gen t (.register data) (.registerAccount ⟨false, message⟩) :=
  ⟨World.initial s, _, by rw [World.handle, World.initial, h]; rfl, rfl⟩

theorem answers_register_ok {m : PMRequestRegisterAccount}
    (h : registerVerdict gen s data = .granted m) :
    Answers gen t (.register data) (.registerAccount ⟨true, str "ok"⟩) :=
  ⟨World.initial s, _, by rw [World.handle, World.initial, h]; rfl, rfl⟩

theorem answers_login {message : Bytes} (h : loginVerdict gen s data = .refused message) :
    Answers gen t (.login data now) (.login ⟨false, message⟩) :=
  ⟨World.initial s, _, by rw [World.handle, World.initial, h]; rfl, rfl⟩

theorem answers_login_ok {m : PMRequestLogin} (h : loginVerdict gen s data = .granted m) :
    Answers gen t (.login data now) (.login ⟨true, str "ok"⟩) :=
  ⟨World.initial s, _, by rw [World.handle, World.initial, h]; rfl, rfl⟩

theorem answers_playerData {message : Bytes}
    (h : playerDataVerdict gen s t data = .refused message) :
    Answers gen t (.playerData data) (.playerData ⟨false, message, [], []⟩) :=
  ⟨World.initial s, _, by rw [World.handle, World.initial, h]; rfl, rfl⟩

theorem answers_playerData_ok {nickname color : Bytes}
    (h : playerDataVerdict gen s t data = .granted (nickname, color)) :
    Answers gen t (.playerData data) (.playerData ⟨true, str "ok", nickname, color⟩) :=
  ⟨World.initial s, _, by rw [World.handle, World.initial, h]; rfl, rfl⟩

end Answers

/-! ## A handler pays what it owes -/

/-- Whether a handler still has to answer its request. -/
inductive Debt where
  | owing
  | paid
  deriving DecidableEq

/-- A handler posts one answer while it owes one. -/
inductive Pays (gen : Generated) (t : Token) (a : Activity) :
    Debt → (c : Command) → Reply c → Debt → Prop where
  | keep (x : Debt) (c : Command) (r : Reply c) :
      (∀ u response, c ≠ .postWrite u response) → Pays gen t a x c r x
  | pay (response : Response) : Answers gen t a response →
      Pays gen t a .owing (.postWrite t response) () .paid

/-- What a handler owes when it starts. -/
def Debt.start (a : Activity) : Debt := if a.isAnswered = true then .owing else .paid

/-- A handler that returns has paid. -/
abbrev Cleared {α : Type} : Option α → Debt → Prop := fun o y => o.isSome = true → y = .paid

/-- The response that is about to be posted is an answer, and still owed. -/
abbrev Ready (gen : Generated) (t : Token) (a : Activity) {α : Type} (f : α → Response) :
    Option α → Debt → Prop :=
  fun o y => ∀ m, o = some m → y = .owing ∧ Answers gen t a (f m)

section Handlers

variable {gen : Generated} {t : Token} {a : Activity}

theorem ready {α : Type} {f : α → Response} {m : α} (h : Answers gen t a (f m)) :
    Ready gen t a f (some m) .owing := by
  rintro _ ⟨⟩
  exact ⟨rfl, h⟩

theorem conforms_silent {Q : Command → Prop} {h : Handler Unit} (hq : Issues Q h)
    (hs : ∀ c, Q c → ∀ u response, c ≠ .postWrite u response) :
    Conforms (Pays gen t a) Cleared .paid h := by
  refine Issues.conforms ?_ ?_ hq
  · exact fun c r hc => .keep _ _ _ (hs c hc)
  · exact fun _ _ => rfl

theorem conforms_keep {x : Debt} {α : Type} {fin : Option α → Debt → Prop} {c : Command}
    {k : Reply c → Handler α} (hc : ∀ u response, c ≠ .postWrite u response)
    (hk : ∀ r, Conforms (Pays gen t a) fin x (k r)) : Conforms (Pays gen t a) fin x (.issue c k) :=
  fun r => ⟨x, .keep _ _ _ hc, hk r⟩

theorem conforms_post {α : Type} {p : Handler α} {f : α → Response}
    (hp : Conforms (Pays gen t a) (Ready gen t a f) .owing p) :
    Conforms (Pays gen t a) Cleared .owing (p >>= fun m => call (.postWrite t (f m))) := by
  refine hp.bind (fun _ _ h => by cases h) fun m y hy => ?_
  obtain ⟨rfl, hm⟩ := hy m rfl
  exact fun _ => ⟨.paid, .pay _ hm, fun _ => rfl⟩

theorem conforms_creationAccount (data : Bytes) :
    Conforms (Pays gen t (.register data)) Cleared .owing
      (handleRequestCreationAccount gen t data) := by
  refine conforms_post ?_
  unfold creationAccountResponse
  split
  · rename_i hm
    exact ready (answers_register Store.empty (registerVerdict_of_parse_none hm))
  · rename_i m hm
    split_ifs with h1 h2 h3
    · exact ready (answers_register Store.empty (by simp [registerVerdict, hm, h1]))
    · exact ready (answers_register Store.empty (by simp [registerVerdict, hm, h1, h2]))
    · exact ready (answers_register Store.empty (by simp [registerVerdict, hm, h1, h2, h3]))
    · simp only [Program.call_bind]
      refine conforms_keep (by simp) fun used => ?_
      split
      · refine ready (answers_register (Store.empty.hashSet (idKey m.id) [] []) ?_)
        simp [registerVerdict, hm, h1, h2, h3, Store.existsKey_hashSet]
      · refine conforms_keep (by simp) fun _ => conforms_keep (by simp) fun _ => ?_
        refine conforms_keep (by simp) fun _ => ready (answers_register_ok Store.empty (m := m) ?_)
        simp [registerVerdict, hm, h1, h2, h3]

theorem conforms_login (data : Bytes) (now : ℕ) :
    Conforms (Pays gen t (.login data now)) Cleared .owing (handleRequestLogin gen t data now) := by
  refine conforms_post ?_
  unfold loginResponse
  split
  · rename_i hm
    exact ready (answers_login Store.empty (loginVerdict_of_parse_none hm))
  · rename_i m hm
    simp only [Program.call_bind]
    refine conforms_keep (by simp) fun known => ?_
    split
    · exact ready (answers_login Store.empty (by simp [loginVerdict, hm]))
    · refine conforms_keep (by simp) fun password => ?_
      cases password with
      | none => exact fun _ h => by cases h
      | some passwordHash =>
        simp only [deref, Program.done_bind]
        split
        · rename_i hne
          refine ready (answers_login
            (Store.empty.hashSet (idKey m.id) (str "password") passwordHash) ?_)
          simp [loginVerdict, hm, Store.existsKey_hashSet, Store.hashGet_hashSet, hne]
        · refine conforms_keep (by simp) fun logined => ?_
          split
          · refine ready (answers_login ((Store.empty.hashSet (idKey m.id) (str "password")
              (gen.sha256 m.password)).hashSet (loginedKey m.id) [] []) ?_)
            simp [loginVerdict, hm, Store.existsKey_hashSet, Store.hashGet_hashSet]
          · refine conforms_keep (by simp) fun _ => conforms_keep (by simp) fun _ => ?_
            refine conforms_keep (by simp) fun _ => conforms_keep (by simp) fun _ => ?_
            refine ready (answers_login_ok (Store.empty.hashSet (idKey m.id) (str "password")
              (gen.sha256 m.password)) (m := m) ?_)
            simp [loginVerdict, hm, Store.existsKey_hashSet, Store.hashGet_hashSet]

theorem conforms_playerData (data : Bytes) :
    Conforms (Pays gen t (.playerData data)) Cleared .owing
      (handleRequestPlayerData gen t data) := by
  refine conforms_post ?_
  unfold playerDataResponse
  split
  · rename_i hp
    exact ready (answers_playerData Store.empty (playerDataVerdict_of_parse_false hp))
  · rename_i hp
    simp only [Program.call_bind]
    refine conforms_keep (by simp) fun connected => ?_
    split
    · exact ready (answers_playerData Store.empty (by simp [playerDataVerdict, hp]))
    · refine conforms_keep (by simp) fun loginId => ?_
      cases loginId with
      | none =>
        refine ready (answers_playerData (Store.empty.hashSet (clientKey t) [] []) ?_)
        have hfield : str "loginId" ≠ [] := by decide
        simp [playerDataVerdict, hp, Store.existsKey_hashSet, Store.hashGet_hashSet, hfield]
      | some idStr =>
        refine conforms_keep (by simp) fun known => ?_
        split
        · refine ready (answers_playerData
            (Store.empty.hashSet (clientKey t) (str "loginId") idStr) ?_)
          simp [playerDataVerdict, hp, Store.existsKey_hashSet, Store.hashGet_hashSet]
        · refine conforms_keep (by simp) fun nicknameStr => ?_
          refine conforms_keep (by simp) fun colorStr => ?_
          refine conforms_keep (by simp) fun _ => ?_
          cases nicknameStr with
          | none => exact fun _ h => by cases h
          | some nickname =>
            cases colorStr with
            | none => exact fun _ h => by cases h
            | some color =>
              refine ready (answers_playerData_ok (((Store.empty.hashSet (clientKey t)
                (str "loginId") idStr).hashSet (idKey idStr) (str "nickname") nickname).hashSet
                (idKey idStr) (str "personalColor") color) ?_)
              have hne : str "nickname" ≠ str "personalColor" := by decide
              simp [playerDataVerdict, hp, Store.existsKey_hashSet, Store.hashGet_hashSet, hne]

/-- Every handler pays what it owes, and no other does more. -/
theorem conforms_body (a : Activity) :
    Conforms (Pays gen t a) Cleared (Debt.start a) (a.body gen t) := by
  cases a with
  | accept now =>
    refine conforms_silent (issues_acceptClient gen t now) ?_
    rintro _ hc _ _ rfl
    exact hc
  | register data => exact conforms_creationAccount data
  | login data now => exact conforms_login data now
  | playerData data => exact conforms_playerData data
  | logout data =>
    refine conforms_silent (issues_logout gen t data) ?_
    rintro _ hc _ _ rfl
    exact hc
  | disconnect =>
    refine conforms_silent (issues_disconnect t) ?_
    rintro _ hc _ _ rfl
    exact hc.elim id id

end Handlers

/-! ## Runs -/

/-- The requests that client `t` has sent and that are to be answered, oldest first. -/
def requests (acts : List (Action Token Activity)) (t : Token) : List Activity :=
  acts.filterMap fun
    | .start u a => if u = t ∧ a.isAnswered = true then some a else none
    | .advance _ => none

section Runs

variable {gen : Generated} {p p' : ServerPool} {acts : List (Action Token Activity)}
  {act : Action Token Activity} {debt : Token → Debt}

theorem requests_start (t u : Token) (a : Activity) : requests (acts ++ [.start t a]) u =
    requests acts u ++ if t = u ∧ a.isAnswered = true then [a] else [] := by
  rw [requests, List.filterMap_append, requests]
  congr 1
  by_cases h : t = u ∧ a.isAnswered = true <;> simp [h]

theorem requests_advance (t u : Token) : requests (acts ++ [.advance t]) u = requests acts u := by
  simp [requests]

theorem requests_advances (schedule : List Token) (t : Token) :
    requests (acts ++ schedule.map .advance) t = requests acts t := by
  induction schedule generalizing acts with
  | nil => rw [List.map_nil, List.append_nil]
  | cons u schedule ih =>
    rw [List.map_cons, List.append_cons, ih, requests_advance]

/-- The request that a client is still owed an answer to, where `a` is what its
handler is busy with. -/
def pending (a : Option Activity) : Debt → List Activity
  | .owing => a.toList
  | .paid => []

/-- All requests but the pending one have been answered in order. -/
structure Matched (gen : Generated) (acts : List (Action Token Activity)) (p : ServerPool)
    (debt : Token → Debt) : Prop where
  staged : Staged (Pays gen) Cleared .paid p debt
  answered : ∀ t, ∃ done, requests acts t = done ++ pending (p.activity t) (debt t) ∧
    List.Forall₂ (Answers gen t) done (responses p.shared t)

theorem matched_idle (redis : Redis) :
    Matched gen [] (Pool.idle (World.initial redis)) (fun _ => .paid) where
  staged := staged_idle _
  answered _ := ⟨[], rfl, .nil⟩

theorem Matched.step (h : Matched gen acts p debt) (hs : (server gen).step p act = some p') :
    ∃ debt', Matched gen (acts ++ [act]) p' debt' := by
  rcases h.staged.step_from (fun _ a => Debt.start a) (fun t a _ => conforms_body a) hs with
    ⟨t, a, rfl, hi, -, hw, -, hact, hst⟩ | ⟨t, rfl, hcleared, hw, -, hact, hst⟩ |
    ⟨t, a, c, k, r, x, rfl, ht, he, hδ, -, hact, hst⟩
  · refine ⟨_, hst, fun u => ?_⟩
    obtain ⟨done, hdone, hans⟩ := h.answered u
    rw [hw, hact, requests_start]
    refine ⟨done, ?_, hans⟩
    by_cases hu : u = t
    · subst hu
      rw [h.staged.rest_of_idle hi, pending, List.append_nil] at hdone
      rw [hdone, Function.update_self, Function.update_self]
      by_cases ha : a.isAnswered = true <;> simp [Debt.start, pending, ha]
    · rw [hdone, Function.update_of_ne hu, Function.update_of_ne hu,
        if_neg fun hc => hu hc.1.symm, List.append_nil]
  · refine ⟨_, hst, fun u => ?_⟩
    obtain ⟨done, hdone, hans⟩ := h.answered u
    rw [hw, hact, requests_advance]
    refine ⟨done, ?_, hans⟩
    by_cases hu : u = t
    · subst hu
      rw [hcleared rfl] at hdone
      rw [hdone, Function.update_self, Function.update_self]
      rfl
    · rw [hdone, Function.update_of_ne hu, Function.update_of_ne hu]
  · refine ⟨_, hst, fun u => ?_⟩
    obtain ⟨done, hdone, hans⟩ := h.answered u
    rw [hact, requests_advance]
    generalize hy : debt t = y at hδ
    cases hδ with
    | keep _ _ _ hc =>
      have hposted : p'.shared.posted = p.shared.posted := by
        rcases posted_of_exec he with hsame | ⟨v, response, hpost, -⟩
        · exact hsame
        · exact absurd hpost (hc v response)
      refine ⟨done, ?_, ?_⟩
      · rw [← hy, Function.update_eq_self, hdone]
      · rwa [responses, hposted]
    | pay response hanswer =>
      have hresponses := responses_post p.shared u t response
      have hw : { p.shared with posted := p.shared.posted ++ [(t, response)] } = p'.shared :=
        congrArg Prod.snd (Option.some.inj he)
      rw [hw] at hresponses
      by_cases hu : t = u
      · subst hu
        rw [hy, pending, Pool.activity, ht] at hdone
        rw [if_pos rfl] at hresponses
        refine ⟨done ++ [a], ?_, hresponses ▸ List.rel_append hans (.cons hanswer .nil)⟩
        rw [Function.update_self, pending, List.append_nil]
        exact hdone
      · rw [if_neg hu, List.append_nil] at hresponses
        rw [Function.update_of_ne (Ne.symm hu)]
        exact ⟨done, hdone, hresponses ▸ hans⟩

theorem matched_run {redis : Redis}
    (hr : runs (server gen).step (Pool.idle (World.initial redis)) acts = some p) :
    ∃ debt, Matched gen acts p debt := by
  induction acts using List.reverseRecOn generalizing p with
  | nil =>
    obtain rfl := Option.some.inj hr
    exact ⟨_, matched_idle redis⟩
  | append_singleton acts act ih =>
    obtain ⟨q, hq, hs⟩ := runs_concat.mp hr
    obtain ⟨debt, h⟩ := ih hq
    exact h.step hs

/-- The requests of a client whose handler has returned are all answered. -/
theorem Matched.idle (h : Matched gen acts p debt) {t : Token} (ht : p.threads t = none) :
    List.Forall₂ (Answers gen t) (requests acts t) (responses p.shared t) := by
  obtain ⟨done, hdone, hans⟩ := h.answered t
  rw [h.staged.rest_of_idle ht, pending, List.append_nil] at hdone
  exact hdone ▸ hans

/-- In every interleaving each client is given one response to each of its requests,
in order; the response is one that the handler would give alone, and only the
request that the client's handler is busy with can still be unanswered. -/
theorem responses_match_requests (gen : Generated) (redis : Redis)
    (acts : List (Action Token Activity)) (p : ServerPool)
    (hr : runs (server gen).step (Pool.idle (World.initial redis)) acts = some p) (t : Token) :
    ∃ done waiting, requests acts t = done ++ waiting ∧
      List.Forall₂ (Answers gen t) done (responses p.shared t) ∧ waiting.length ≤ 1 ∧
      ∀ a ∈ waiting, p.activity t = some a := by
  obtain ⟨debt, h⟩ := matched_run hr
  obtain ⟨done, hdone, hans⟩ := h.answered t
  refine ⟨done, _, hdone, hans, ?_, ?_⟩
  · cases debt t <;> cases p.activity t <;> simp [pending]
  · intro a ha
    cases hd : debt t with
    | paid => simp [pending, hd] at ha
    | owing => simpa [pending, hd] using ha

/-- Client 1 has registered and is logging in, while client 2 waits for its answer. -/
def loginWhileAsked : List (Action Token Activity) := List.flatten
  [twoClients, [.start 1 (.login sampleLogin 5), .start 2 (.playerData [])], advances 1 3,
    advances 2 3]

theorem responses_match_requests_login : ∃ p,
    runs (server wireGenerated).step (Pool.idle (World.initial Store.empty)) loginWhileAsked =
      some p ∧
    ∃ done waiting, [.register sampleRegister, .login sampleLogin 5] = done ++ waiting ∧
      List.Forall₂ (Answers wireGenerated 1) done
        [.registerAccount ⟨true, str "ok"⟩] ∧ waiting.length ≤ 1 ∧
      ∀ a ∈ waiting, p.activity 1 = some a := by
  have hrun : (runs (server wireGenerated).step (Pool.idle (World.initial Store.empty))
      loginWhileAsked).map (fun p => responses p.shared 1) =
      some [.registerAccount ⟨true, str "ok"⟩] := by decide +kernel
  obtain ⟨p, hp, hresponses⟩ := Option.map_eq_some_iff.mp hrun
  have hmatch := responses_match_requests wireGenerated Store.empty _ p hp 1
  rw [hresponses] at hmatch
  exact ⟨p, hp, hmatch⟩

end Runs

end IsolationServer.Conversations
