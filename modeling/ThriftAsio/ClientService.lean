import ThriftAsio.Talker

/-! The generated code of the service `talkClient` as far as the client runs it, beside what it
shares with the other service. All its methods are oneway. What its handler methods do with a
call is left to the caller; none of them throws. -/

namespace ThriftAsio

inductive TalkClientIf where
  | onGetVersion (version : Bytes)
  | onGetVersionFailed (why : Bytes)
  | onSetUserNameSucceeded (userId : Int)
  | onSetUserNameFailed (why : Bytes)
  | onSubscribe (topicId : Int)
  | onSubscribeFailed (why : Bytes)
  | onUnsubscribeSucceeded
  | onUnsubscribeFailed (why : Bytes)
  | onSubscribeShip (name : Bytes) (ship : Ship)
  | onSubscribeShipFailed (why : Bytes)
  deriving DecidableEq, Repr

/-- What `talkClientProcessor` does once it has read a message. -/
inductive Incoming where
  /-- The type of the message is not that of a call: false is returned. -/
  | refused
  | unknownMethod (fname : Bytes) (seqid : Int)
  | call (method : TalkClientIf)
  deriving DecidableEq, Repr

def Incoming.methods : Incoming → List TalkClientIf
  | .call method => [method]
  | _ => []

def Incoming.replies : Incoming → Bool
  | .unknownMethod _ _ => true
  | _ => false

/-- What the client uses of the Thrift library beyond what the server uses. -/
structure ClientThrift extends Thrift where
  readI64 : Reader Int
  /-- The exception is thrown because the transport has no more data. -/
  endOfFile : ThriftException → Bool
  /-- The buffer that `setUserName(name)` of the generated `talkServerClient` flushes. -/
  setUserName : Bytes → Bytes

namespace ClientThrift

variable (T : ClientThrift)

def i64Field (value : Option Int) : TType × Int → Reader (Option Int)
  | (.other 10, 1) => do return some (← T.readI64)
  | (ftype, _) => do
    T.skip ftype
    pure value

def i64Args : Reader Int := do
  match ← T.readStruct T.i64Field none with
  | some value => pure value
  | none => Decoder.fail .invalidData

def onGetVersionArgs : Reader Bytes := T.stringArgs

def onGetVersionFailedArgs : Reader Bytes := T.stringArgs

def onSetUserNameSucceededArgs : Reader Int := T.i64Args

def onSetUserNameFailedArgs : Reader Bytes := T.stringArgs

def onSubscribeArgs : Reader Int := T.i64Args

def onSubscribeFailedArgs : Reader Bytes := T.stringArgs

def onUnsubscribeSucceededArgs : Reader Unit := T.readStruct T.noField ()

def onUnsubscribeFailedArgs : Reader Bytes := T.stringArgs

/-- The fields are those of `postShip`, under the names `name` and `ship`. -/
def onSubscribeShipArgs : Reader (Bytes × Ship) := T.postShipArgs

def onSubscribeShipFailedArgs : Reader Bytes := T.stringArgs

def processRead (args : Reader Incoming) : Reader Incoming := do
  let incoming ← args
  T.readMessageEnd
  T.readEnd
  pure incoming

def processOnGetVersion : Reader Incoming := T.processRead do
  return .call (.onGetVersion (← T.onGetVersionArgs))

def processOnGetVersionFailed : Reader Incoming := T.processRead do
  return .call (.onGetVersionFailed (← T.onGetVersionFailedArgs))

def processOnSetUserNameSucceeded : Reader Incoming := T.processRead do
  return .call (.onSetUserNameSucceeded (← T.onSetUserNameSucceededArgs))

def processOnSetUserNameFailed : Reader Incoming := T.processRead do
  return .call (.onSetUserNameFailed (← T.onSetUserNameFailedArgs))

def processOnSubscribe : Reader Incoming := T.processRead do
  return .call (.onSubscribe (← T.onSubscribeArgs))

def processOnSubscribeFailed : Reader Incoming := T.processRead do
  return .call (.onSubscribeFailed (← T.onSubscribeFailedArgs))

def processOnUnsubscribeSucceeded : Reader Incoming := T.processRead do
  T.onUnsubscribeSucceededArgs
  return .call .onUnsubscribeSucceeded

def processOnUnsubscribeFailed : Reader Incoming := T.processRead do
  return .call (.onUnsubscribeFailed (← T.onUnsubscribeFailedArgs))

def processOnSubscribeShip : Reader Incoming := T.processRead do
  let (name, ship) ← T.onSubscribeShipArgs
  return .call (.onSubscribeShip name ship)

def processOnSubscribeShipFailed : Reader Incoming := T.processRead do
  return .call (.onSubscribeShipFailed (← T.onSubscribeShipFailedArgs))

def unknownMethod (fname : Bytes) (seqid : Int) : Reader Incoming := T.processRead do
  T.skip .struct
  return .unknownMethod fname seqid

def processMap : List (Bytes × Reader Incoming) :=
  [(bytes "on_getVersion", T.processOnGetVersion),
    (bytes "on_getVersion_failed", T.processOnGetVersionFailed),
    (bytes "on_setUserName_succeeded", T.processOnSetUserNameSucceeded),
    (bytes "on_setUserName_failed", T.processOnSetUserNameFailed),
    (bytes "on_subscribe", T.processOnSubscribe),
    (bytes "on_subscribe_failed", T.processOnSubscribeFailed),
    (bytes "on_unsubscribe_succeeded", T.processOnUnsubscribeSucceeded),
    (bytes "on_unsubscribe_failed", T.processOnUnsubscribeFailed),
    (bytes "on_subscribeShip", T.processOnSubscribeShip),
    (bytes "on_subscribeShip_failed", T.processOnSubscribeShipFailed)]

def dispatchCall (fname : Bytes) (seqid : Int) : Reader Incoming :=
  (T.processMap.lookup fname).getD (T.unknownMethod fname seqid)

def readIncoming : Reader Incoming := do
  match ← T.begin with
  | none => pure .refused
  | some (fname, seqid) => T.dispatchCall fname seqid

def incoming (input : Bytes) : Except ThriftException (Incoming × Bytes) :=
  (T.readIncoming input).map Subtype.val

/-- The payload is one message that makes no reply, and nothing else. -/
def Whole (payload : Bytes) (incoming : Incoming) : Prop :=
  payload ≠ [] ∧ incoming.replies = false ∧ T.incoming payload = .ok (incoming, [])

end ClientThrift

end ThriftAsio
