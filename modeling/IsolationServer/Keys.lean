import IsolationServer.HashStore
import Mathlib

/-!
# Byte strings and the three families of Redis keys

Every string of the server is a byte string. The keys `client:{token}`,
`id:{id}` and `logined:{id}` are built by formatting; ids are chosen by the
clients and may contain any byte, so the families are kept apart by their
prefixes alone.
-/
namespace IsolationServer
open HashStore

abbrev Bytes := List UInt8

/-- The token of a connection, a 64-bit number. -/
abbrev Token := UInt64

/-- The Redis database as the server uses it. -/
abbrev Redis := Store Bytes Bytes Bytes

/-- The bytes of a string literal of the source. -/
def str (s : String) : Bytes := s.toByteArray.data.toList

/-- `std::to_string` and `std::format("{}", n)` of an unsigned number. -/
def decimal (n : ℕ) : Bytes := str n.repr

def tokenStr (t : Token) : Bytes := decimal t.toNat

/-- `client:{token}`, the connection of a client. -/
def clientKey (t : Token) : Bytes := str "client:" ++ tokenStr t

/-- `id:{id}`, a registered account. -/
def idKey (id : Bytes) : Bytes := str "id:" ++ id

/-- `logined:{id}`, the login lock of an account. -/
def loginedKey (id : Bytes) : Bytes := str "logined:" ++ id

theorem str_injective : Function.Injective str := by
  intro a b h
  have hd : a.toByteArray.data = b.toByteArray.data := Array.toList_inj.mp h
  have hb : a.toByteArray = b.toByteArray := by
    cases ha : a.toByteArray
    cases hb : b.toByteArray
    rw [ha, hb] at hd
    cases hd
    rfl
  exact String.toByteArray_inj.mp hb

theorem decimal_injective : Function.Injective decimal := by
  intro m n h
  exact Nat.repr_inj.mp (str_injective h)

theorem tokenStr_injective : Function.Injective tokenStr := by
  intro t u h
  exact UInt64.toNat_inj.mp (decimal_injective h)

@[simp] theorem tokenStr_inj {t u : Token} : tokenStr t = tokenStr u ↔ t = u :=
  tokenStr_injective.eq_iff

@[simp] theorem clientKey_inj {t u : Token} : clientKey t = clientKey u ↔ t = u := by
  simp [clientKey]

@[simp] theorem idKey_inj {a b : Bytes} : idKey a = idKey b ↔ a = b := by simp [idKey]

@[simp] theorem loginedKey_inj {a b : Bytes} : loginedKey a = loginedKey b ↔ a = b := by
  simp [loginedKey]

/-- Keys of different families differ in their first byte. -/
theorem head_clientKey (t : Token) : (clientKey t).head? = some 99 := rfl

theorem head_idKey (id : Bytes) : (idKey id).head? = some 105 := rfl

theorem head_loginedKey (id : Bytes) : (loginedKey id).head? = some 108 := rfl

@[simp] theorem clientKey_ne_idKey (t : Token) (id : Bytes) : clientKey t ≠ idKey id := by
  intro h
  have hh := congrArg List.head? h
  rw [head_clientKey, head_idKey] at hh
  exact absurd hh (by decide)

@[simp] theorem clientKey_ne_loginedKey (t : Token) (id : Bytes) :
    clientKey t ≠ loginedKey id := by
  intro h
  have hh := congrArg List.head? h
  rw [head_clientKey, head_loginedKey] at hh
  exact absurd hh (by decide)

@[simp] theorem idKey_ne_loginedKey (a b : Bytes) : idKey a ≠ loginedKey b := by
  intro h
  have hh := congrArg List.head? h
  rw [head_idKey, head_loginedKey] at hh
  exact absurd hh (by decide)

@[simp] theorem idKey_ne_clientKey (t : Token) (id : Bytes) : idKey id ≠ clientKey t :=
  (clientKey_ne_idKey t id).symm

@[simp] theorem loginedKey_ne_clientKey (t : Token) (id : Bytes) :
    loginedKey id ≠ clientKey t :=
  (clientKey_ne_loginedKey t id).symm

@[simp] theorem loginedKey_ne_idKey (a b : Bytes) : loginedKey b ≠ idKey a :=
  (idKey_ne_loginedKey a b).symm

/-- A store without `client:*` and `logined:*` keys. -/
def CleanStore (s : Redis) : Prop :=
  ∀ rest, s.existsKey (str "client:" ++ rest) = false ∧
    s.existsKey (str "logined:" ++ rest) = false

theorem CleanStore.clientKey {s : Redis} (h : CleanStore s) (t : Token) :
    s.existsKey (clientKey t) = false := (h _).1

theorem CleanStore.loginedKey {s : Redis} (h : CleanStore s) (id : Bytes) :
    s.existsKey (loginedKey id) = false := (h id).2

theorem cleanStore_empty : CleanStore Store.empty := fun _ => ⟨rfl, rfl⟩

end IsolationServer
