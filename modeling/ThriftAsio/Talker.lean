import ThriftAsio.Decoder

/-! The generated code of the service `talkServer` as far as the server runs it: the argument
readers and `dispatchCall`. The Thrift library is a parameter, and so is the buffer that the server
flushes for a message; what the generated writers put into it is in `ThriftAsio.Writers`. Not
modelled: the processor's event handler (there is none) and the counts of bytes the readers
return. -/

namespace ThriftAsio

abbrev Bytes := List UInt8

def bytes (s : String) : Bytes := s.toUTF8.data.toList

inductive TType where
  | stop
  | double
  | i32
  | string
  | struct
  | other (code : UInt8)
  deriving DecidableEq, Repr

inductive ThriftException where
  /-- `TProtocolException::INVALID_DATA`, thrown by the generated readers. -/
  | invalidData
  /-- Whatever the library throws. -/
  | library (what : String)
  deriving DecidableEq, Repr

structure Location where
  /-- Doubles are only passed on: their bits. -/
  latitude : UInt64
  longitude : UInt64
  deriving DecidableEq, Repr

/-- The fields that are optional in the interface are set or not; `shipType` is any i32. -/
structure Ship where
  userId : Bytes := []
  nickName : Bytes := []
  shipType : Int := 0x10
  timeStamp : Int := 0
  shipId : Option Int := none
  text : Option Bytes := none
  picture : Option Bytes := none
  animation : Option Bytes := none
  loc : Option Location := none
  action : Option Bytes := none
  texId : Option Bytes := none
  deriving DecidableEq, Repr

inductive ClientCall where
  | onGetVersion (version : Bytes)
  | onSetUserNameSucceeded
  | onSetUserNameFailed (why : Bytes)
  | onSubscribeSucceeded (topicId : Int)
  | onUnsubscribeSucceeded
  | onSubscribeShip (name : Bytes) (ship : Ship)
  deriving DecidableEq, Repr

inductive OutMessage where
  | call (c : ClientCall)
  /-- `TApplicationException::UNKNOWN_METHOD` -/
  | unknownMethod (fname : Bytes) (seqid : Int) (what : Bytes)
  deriving DecidableEq, Repr

/-- What the code uses of the Thrift library. A `TBinaryProtocol` over a `TMemoryBuffer` reads
the rest of the payload. -/
structure Thrift where
  /-- `TDispatchProcessor::process` up to `dispatchCall(fname, seqid)`, or none if it refuses
  the type of the message and returns. -/
  begin : Decoder ThriftException UInt8 (Option (Bytes × Int))
  readMessageEnd : Decoder ThriftException UInt8 Unit
  readEnd : Decoder ThriftException UInt8 Unit
  readStructBegin : Decoder ThriftException UInt8 Unit
  readStructEnd : Decoder ThriftException UInt8 Unit
  readFieldBegin : Eater ThriftException UInt8 (TType × Int)
  readFieldEnd : Decoder ThriftException UInt8 Unit
  readString : Decoder ThriftException UInt8 Bytes
  readBinary : Decoder ThriftException UInt8 Bytes
  readI32 : Decoder ThriftException UInt8 Int
  readDouble : Decoder ThriftException UInt8 UInt64
  skip : TType → Decoder ThriftException UInt8 Unit
  /-- The buffer that writing a message and flushing the `TFramedTransport` hands down. -/
  frame : OutMessage → Bytes

abbrev Reader := Decoder ThriftException UInt8

namespace Thrift

variable (T : Thrift)

/-- The frame of every generated `read`: the fields up to T_STOP. -/
def readStruct {σ : Type} (field : σ → TType × Int → Reader σ) (s : σ) : Reader σ := do
  T.readStructBegin
  let s ← Decoder.loop T.readFieldBegin (fun f => f.1 = .stop)
    (fun s f => do
      let s ← field s f
      T.readFieldEnd
      pure s) s
  T.readStructEnd
  pure s

structure LocationRead where
  latitude : Option UInt64 := none
  longitude : Option UInt64 := none

def locationField (l : LocationRead) : TType × Int → Reader LocationRead
  | (.double, 1) => do return { l with latitude := some (← T.readDouble) }
  | (.double, 2) => do return { l with longitude := some (← T.readDouble) }
  | (ftype, _) => do
    T.skip ftype
    pure l

def readLocation : Reader Location := do
  match ← T.readStruct T.locationField {} with
  | ⟨some latitude, some longitude⟩ => pure ⟨latitude, longitude⟩
  | _ => Decoder.fail .invalidData

/-- The object that `Ship::read` is called on, with its local variables. -/
structure ShipRead where
  ship : Ship
  issetUserId : Bool := false
  issetNickName : Bool := false
  issetShipType : Bool := false
  issetTimeStamp : Bool := false

def shipField (s : ShipRead) : TType × Int → Reader ShipRead
  | (.string, 1) => do
    return { s with ship := { s.ship with userId := ← T.readString }, issetUserId := true }
  | (.string, 2) => do
    return { s with ship := { s.ship with nickName := ← T.readString }, issetNickName := true }
  | (.i32, 3) => do
    return { s with ship := { s.ship with shipType := ← T.readI32 }, issetShipType := true }
  | (.i32, 4) => do
    return { s with ship := { s.ship with timeStamp := ← T.readI32 }, issetTimeStamp := true }
  | (.i32, 5) => do return { s with ship := { s.ship with shipId := some (← T.readI32) } }
  | (.string, 6) => do return { s with ship := { s.ship with text := some (← T.readString) } }
  | (.string, 7) => do return { s with ship := { s.ship with picture := some (← T.readBinary) } }
  | (.string, 8) => do return { s with ship := { s.ship with animation := some (← T.readBinary) } }
  | (.struct, 9) => do return { s with ship := { s.ship with loc := some (← T.readLocation) } }
  | (.string, 10) => do return { s with ship := { s.ship with action := some (← T.readString) } }
  | (.string, 11) => do return { s with ship := { s.ship with texId := some (← T.readString) } }
  | (ftype, _) => do
    T.skip ftype
    pure s

/-- `ship.read(iprot)`: optional fields that are not sent keep the value they had. -/
def readShip (ship : Ship) : Reader Ship := do
  let s ← T.readStruct T.shipField { ship := ship }
  if s.issetUserId && s.issetNickName && s.issetShipType && s.issetTimeStamp then pure s.ship
  else Decoder.fail .invalidData

def noField (u : Unit) : TType × Int → Reader Unit
  | (ftype, _) => do
    T.skip ftype
    pure u

def getVersionArgs : Reader Unit := T.readStruct T.noField ()

def stringField (value : Option Bytes) : TType × Int → Reader (Option Bytes)
  | (.string, 1) => do return some (← T.readString)
  | (ftype, _) => do
    T.skip ftype
    pure value

def stringArgs : Reader Bytes := do
  match ← T.readStruct T.stringField none with
  | some value => pure value
  | none => Decoder.fail .invalidData

def setUserNameArgs : Reader Bytes := T.stringArgs

def subscribeArgs : Reader Bytes := T.stringArgs

def unsubscribeArgs : Reader Bytes := T.stringArgs

structure PostShipRead where
  channel : Option Bytes := none
  ship : Ship := {}
  issetShip : Bool := false

def postShipField (args : PostShipRead) : TType × Int → Reader PostShipRead
  | (.string, 1) => do return { args with channel := some (← T.readString) }
  | (.struct, 2) => do return { args with ship := ← T.readShip args.ship, issetShip := true }
  | (ftype, _) => do
    T.skip ftype
    pure args

def postShipArgs : Reader (Bytes × Ship) := do
  match ← T.readStruct T.postShipField {} with
  | ⟨some channel, ship, true⟩ => pure (channel, ship)
  | _ => Decoder.fail .invalidData

end Thrift

/-- What `TProcessor::process` does once it has read the payload. -/
inductive Request where
  /-- The type of the message is not that of a call: false is returned. -/
  | refused
  | unknownMethod (fname : Bytes) (seqid : Int)
  | getVersion
  | setUserName (name : Bytes)
  | subscribe (topic : Bytes)
  | unsubscribe (topic : Bytes)
  | postShip (channel : Bytes) (ship : Ship)
  deriving DecidableEq, Repr

namespace Thrift

variable (T : Thrift)

def processRead (args : Reader Request) : Reader Request := do
  let request ← args
  T.readMessageEnd
  T.readEnd
  pure request

def processGetVersion : Reader Request := T.processRead do
  T.getVersionArgs
  pure .getVersion

def processSetUserName : Reader Request := T.processRead do
  return .setUserName (← T.setUserNameArgs)

def processSubscribe : Reader Request := T.processRead do
  return .subscribe (← T.subscribeArgs)

def processUnsubscribe : Reader Request := T.processRead do
  return .unsubscribe (← T.unsubscribeArgs)

def processPostShip : Reader Request := T.processRead do
  let (channel, ship) ← T.postShipArgs
  return .postShip channel ship

def unknownMethod (fname : Bytes) (seqid : Int) : Reader Request := T.processRead do
  T.skip .struct
  return .unknownMethod fname seqid

def processMap (fname : Bytes) : Option (Reader Request) :=
  if fname = bytes "getVersion" then some T.processGetVersion
  else if fname = bytes "setUserName" then some T.processSetUserName
  else if fname = bytes "subscribe" then some T.processSubscribe
  else if fname = bytes "unsubscribe" then some T.processUnsubscribe
  else if fname = bytes "postShip" then some T.processPostShip
  else none

def dispatchCall (fname : Bytes) (seqid : Int) : Reader Request :=
  (T.processMap fname).getD (T.unknownMethod fname seqid)

def readRequest : Reader Request := do
  match ← T.begin with
  | none => pure .refused
  | some (fname, seqid) => T.dispatchCall fname seqid

def request (payload : Bytes) : Except ThriftException Request := T.readRequest.value payload

/-- The payload holds one message that can be decoded: reading it throws nothing. -/
def Decodes (payload : Bytes) : Prop := ∃ r, T.request payload = .ok r

instance : DecidablePred T.Decodes := fun payload =>
  match h : T.request payload with
  | .ok r => .isTrue ⟨r, h⟩
  | .error e => .isFalse fun ⟨r, decoded⟩ => by rw [h] at decoded; cases decoded

end Thrift

end ThriftAsio
