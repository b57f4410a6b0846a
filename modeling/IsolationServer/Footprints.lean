import IsolationServer.Handlers

/-!
# What each handler can do

For every handler of client `t`, the commands that it can issue in any of its
branches: which keys it reads and writes, and whose socket it touches. The
keys are named up to the id, which comes from a request or from the store.
-/
namespace IsolationServer
open CommandPrograms

def AcceptCommand (t : Token) : Command → Prop
  | .construct u => u = t
  | .readAsync u => u = t
  | .insertClient u => u = t
  | .setPacketHandler u _ _ => u = t
  | .setErrorHandler u _ => u = t
  | .hashSet key field _ => key = clientKey t ∧ field = str "ConnectedTime"
  | .lock m => m = .conn ∨ m = .packetHandler t ∨ m = .disconnectHandler t
  | .unlock m => m = .conn ∨ m = .packetHandler t ∨ m = .disconnectHandler t
  | _ => False

def RegisterCommand (t : Token) : Command → Prop
  | .existsKey key => ∃ id, key = idKey id
  | .hashSet key _ _ => ∃ id, key = idKey id
  | .postWrite u (.registerAccount _) => u = t
  | _ => False

def LoginCommand (t : Token) : Command → Prop
  | .existsKey key => (∃ id, key = idKey id) ∨ ∃ id, key = loginedKey id
  | .hashGet key field => (∃ id, key = idKey id) ∧ field = str "password"
  | .hashSet key field _ => (key = clientKey t ∧ field = str "loginId") ∨ ∃ id, key = loginedKey id
  | .setLoginKey u _ => u = t
  | .postWrite u (.login _) => u = t
  | _ => False

def PlayerDataCommand (t : Token) : Command → Prop
  | .existsKey key => key = clientKey t ∨ ∃ id, key = idKey id
  | .hashGet key field => (key = clientKey t ∧ field = str "loginId") ∨ ∃ id, key = idKey id
  | .persist key => ∃ id, key = idKey id
  | .postWrite u (.playerData _) => u = t
  | _ => False

def LogoutCommand (t : Token) : Command → Prop
  | .existsKey key => key = clientKey t
  | .hashGet key field => key = clientKey t ∧ field = str "loginId"
  | .setLoginKey u _ => u = t
  | .del key => ∃ id, key = loginedKey id
  | .hashDel key field => key = clientKey t ∧ field = str "loginId"
  | _ => False

/-- The commands of the handlers of requests. -/
inductive RequestCommand (t : Token) (c : Command) : Prop where
  | login (h : LoginCommand t c)
  | register (h : RegisterCommand t c)
  | playerData (h : PlayerDataCommand t c)
  | logout (h : LogoutCommand t c)

def RemoveCommand (t : Token) : Command → Prop
  | .stop u => u = t
  | .lock m => m = .conn
  | .unlock m => m = .conn
  | .del key => key = clientKey t
  | .eraseClient u => u = t
  | _ => False

section Issues

variable (gen : Generated) (t : Token)

theorem issues_acceptClient (now : ℕ) : Issues (AcceptCommand t) (acceptClient gen t now) := by
  simp [acceptClient, addClient, setPacketHandler, setErrorHandler, scopedLock, Issues,
    AcceptCommand, Program.call]

theorem issues_creationAccount (data : Bytes) :
    Issues (RegisterCommand t) (handleRequestCreationAccount gen t data) := by
  unfold handleRequestCreationAccount creationAccountResponse
  split
  · simp [Issues, RegisterCommand, Program.call]
  · split_ifs <;> simp [Issues, RegisterCommand, Program.call]

theorem issues_login (data : Bytes) (now : ℕ) :
    Issues (LoginCommand t) (handleRequestLogin gen t data now) := by
  refine Issues.bind ?_ fun r => ⟨rfl, fun _ => trivial⟩
  unfold loginResponse
  split
  · trivial
  · rename_i m _
    simp only [Program.call_bind]
    refine .issue (.inl ⟨m.id, rfl⟩) fun known => ?_
    split
    · trivial
    · refine .issue ⟨⟨m.id, rfl⟩, rfl⟩ fun password => ?_
      cases password with
      | none => trivial
      | some passwordHash =>
        simp only [deref, Program.done_bind]
        split
        · trivial
        · refine .issue (.inr ⟨m.id, rfl⟩) fun logined => ?_
          split
          · trivial
          · simp [Issues, LoginCommand]

theorem issues_playerData (data : Bytes) :
    Issues (PlayerDataCommand t) (handleRequestPlayerData gen t data) := by
  refine Issues.bind ?_ fun r => ⟨rfl, fun _ => trivial⟩
  unfold playerDataResponse
  split
  · trivial
  · simp only [Program.call_bind]
    refine .issue (.inl rfl) fun connected => ?_
    split
    · trivial
    · refine .issue (.inl ⟨rfl, rfl⟩) fun loginId => ?_
      cases loginId with
      | none => trivial
      | some idStr =>
        refine .issue (.inr ⟨idStr, rfl⟩) fun known => ?_
        split
        · trivial
        · refine .issue (.inr ⟨idStr, rfl⟩) fun nicknameStr => ?_
          refine .issue (.inr ⟨idStr, rfl⟩) fun personalColorStr => .issue ⟨idStr, rfl⟩ fun _ => ?_
          cases nicknameStr <;> cases personalColorStr <;> trivial

theorem issues_logoutClient : Issues (LogoutCommand t) (logoutClient t) := by
  simp only [logoutClient, Program.call_bind]
  refine .issue rfl fun connected => ?_
  split
  · trivial
  · refine .issue ⟨rfl, rfl⟩ fun loginIdStr => ?_
    cases loginIdStr with
    | none => trivial
    | some loginId => simp [Issues, LogoutCommand, Program.call]

theorem issues_logout (data : Bytes) :
    Issues (LogoutCommand t) (handleRequestLogout gen t data) := by
  unfold handleRequestLogout
  split
  · exact issues_logoutClient t
  · trivial

theorem issues_disconnect :
    Issues (fun c => LogoutCommand t c ∨ RemoveCommand t c) (handleDisconnect t) := by
  refine Issues.bind ((issues_logoutClient t).mono fun _ => .inl) fun _ => ?_
  simp [removeClient, scopedLock, Issues, RemoveCommand, Program.call]

end Issues

end IsolationServer
