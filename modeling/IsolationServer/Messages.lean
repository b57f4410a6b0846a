import IsolationServer.Keys

/-!
# Messages and their packets

The protobuf classes are generated from a schema that is not part of the
repository: their parsers, serializers and enumeration values are the fields of
`Generated`. A packet is the magic `prot`, the type and the total length as
little-endian 32-bit numbers, and the serialized message.
-/
namespace IsolationServer

structure PMRequestRegisterAccount where
  id : Bytes
  password : Bytes
  nickname : Bytes
  personalcolor : Bytes
  deriving DecidableEq

structure PMRequestLogin where
  id : Bytes
  password : Bytes
  deriving DecidableEq

structure PMResponseRegisterAccount where
  result : Bool := false
  message : Bytes := []
  deriving DecidableEq

structure PMResponseLogin where
  result : Bool := false
  message : Bytes := []
  deriving DecidableEq

structure PMResponsePlayerData where
  result : Bool := false
  message : Bytes := []
  nickname : Bytes := []
  personalcolor : Bytes := []
  deriving DecidableEq

/-- A response message, before it is serialized. -/
inductive Response where
  | registerAccount (m : PMResponseRegisterAccount)
  | login (m : PMResponseLogin)
  | playerData (m : PMResponsePlayerData)
  deriving DecidableEq

/-- The generated protobuf code and the password hash. A request without fields
that the server reads is only parsed or not. -/
structure Generated where
  parseRegisterAccount : Bytes → Option PMRequestRegisterAccount
  parseLogin : Bytes → Option PMRequestLogin
  parsePlayerData : Bytes → Bool
  parseLogout : Bytes → Bool
  serialize : Response → Bytes
  requestRegisterAccount : Int32
  requestLogin : Int32
  requestPlayerData : Int32
  requestLogout : Int32
  responseRegisterAccount : Int32
  responseLogin : Int32
  responsePlayerData : Int32
  emDisconnected : Int32
  sha256 : Bytes → Bytes

/-- `static_cast<int>` of a `size_t`. -/
def toInt (n : UInt64) : Int32 := n.toUInt32.toInt32

/-- The conversion of an `int` to `size_t`, which extends the sign. -/
def toSize (n : Int32) : UInt64 := n.toInt64.toUInt64

/-- The low byte of an `int`. -/
def lowByte (value : Int32) : UInt8 := (value &&& 0xFF).toUInt32.toUInt8

/-- Append the four bytes of `value`, least significant first. -/
def appendIntVecCharLe (buffer : Bytes) (value : Int32) : Bytes :=
  buffer ++ [lowByte value, lowByte (value >>> 8), lowByte (value >>> 16),
    lowByte (value >>> 24)]

/-- Append the packet header. -/
def appendProtPacket (buffer : Bytes) (type : Int32) (len : UInt64) : Bytes :=
  appendIntVecCharLe (appendIntVecCharLe (buffer ++ str "prot") type) (toInt len)

/-- The length that the handlers of registration and player data write. -/
def packetLength (n : ℕ) : UInt64 := toSize (toInt (UInt64.ofNat n + 12))

/-- The length that the login handler writes: it converts before it adds. -/
def loginPacketLength (n : ℕ) : UInt64 := toSize (toInt (UInt64.ofNat n) + 12)

/-- The packet that is posted for a response. -/
def Response.packet (gen : Generated) (r : Response) : Bytes :=
  let responseStr := gen.serialize r
  match r with
  | .registerAccount _ =>
    appendProtPacket [] gen.responseRegisterAccount (packetLength responseStr.length) ++ responseStr
  | .login _ =>
    appendProtPacket [] gen.responseLogin (loginPacketLength responseStr.length) ++ responseStr
  | .playerData _ =>
    appendProtPacket [] gen.responsePlayerData (packetLength responseStr.length) ++ responseStr

/-- Length-delimited fields in wire format, numbered from `number` on. -/
def wireFields : ℕ → ℕ → Bytes → Option (List Bytes)
  | _, _, [] => some []
  | 0, _, _ => none
  | fuel + 1, number, tag :: len :: rest =>
    if tag.toNat = 8 * number + 2 ∧ len.toNat ≤ rest.length then
      (wireFields fuel (number + 1) (rest.drop len.toNat)).map (rest.take len.toNat :: ·)
    else none
  | _, _, _ => none

/-- One length-delimited field. -/
def wireField (number : ℕ) (value : Bytes) : Bytes :=
  UInt8.ofNat (8 * number + 2) :: UInt8.ofNat value.length :: value

/-- A schema in which the fields of each message are numbered in order; it
serves to run the server on concrete requests. -/
def wireGenerated : Generated where
  parseRegisterAccount data :=
    match wireFields data.length 1 data with
    | some [id, password, nickname, personalcolor] => some ⟨id, password, nickname, personalcolor⟩
    | _ => none
  parseLogin data :=
    match wireFields data.length 1 data with
    | some [id, password] => some ⟨id, password⟩
    | _ => none
  parsePlayerData data := data.isEmpty
  parseLogout data := data.isEmpty
  serialize
    | .registerAccount m => 8 :: (if m.result then 1 else 0) :: wireField 2 m.message
    | .login m => 8 :: (if m.result then 1 else 0) :: wireField 2 m.message
    | .playerData m => 8 :: (if m.result then 1 else 0) :: wireField 2 m.message ++
      wireField 3 m.nickname ++ wireField 4 m.personalcolor
  requestRegisterAccount := 1
  requestLogin := 3
  requestPlayerData := 5
  requestLogout := 7
  responseRegisterAccount := 2
  responseLogin := 4
  responsePlayerData := 6
  emDisconnected := 0
  sha256 password := str "sha256 " ++ password

/-- A registration request in wire format. -/
def sampleRegister : Bytes :=
  wireField 1 (str "ab") ++ wireField 2 (str "pw") ++ wireField 3 (str "nick") ++
    wireField 4 (str "red")

/-- A login request to the account of `sampleRegister`. -/
def sampleLogin : Bytes := wireField 1 (str "ab") ++ wireField 2 (str "pw")

end IsolationServer
