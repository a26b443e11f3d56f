import ThriftAsio.ClientService
import ThriftAsio.Framing

/-! The generated writers: the structs of the interface, the `pargs` of both services, and the
`send_X` of `talkServerClient` and `talkClientClient`. The Thrift library is a parameter again,
as the bytes that its calls append. Not modelled: the counts of bytes the writers return, and the
writers of `args`, which write the same fields and are called by nobody. -/

namespace ThriftAsio

inductive TMessageType where
  | call
  | reply
  | exception
  | oneway
  deriving DecidableEq, Repr

inductive TalkServerIf where
  | getVersion
  | setUserName (name : Bytes)
  | subscribe (topic : Bytes)
  | unsubscribe (topic : Bytes)
  | postShip (channel : Bytes) (ship : Ship)
  deriving DecidableEq, Repr

/-- What the writers use of the Thrift library. -/
structure OutputProtocol where
  writeMessageBegin (name : Bytes) (messageType : TMessageType) (seqid : Int) : Bytes
  writeMessageEnd : Bytes
  writeStructBegin (name : Bytes) : Bytes
  writeStructEnd : Bytes
  writeFieldBegin (name : Bytes) (fieldType : TType) (fieldId : Int) : Bytes
  writeFieldEnd : Bytes
  writeFieldStop : Bytes
  writeString (str : Bytes) : Bytes
  writeBinary (str : Bytes) : Bytes
  writeI32 (i32 : Int) : Bytes
  writeI64 (i64 : Int) : Bytes
  writeDouble (bits : UInt64) : Bytes

namespace OutputProtocol

variable (W : OutputProtocol)

def writeField (name : String) (fieldType : TType) (fieldId : Int) (value : Bytes) : Bytes :=
  W.writeFieldBegin (bytes name) fieldType fieldId ++ value ++ W.writeFieldEnd

def writeStruct (name : String) (fields : Bytes) : Bytes :=
  W.writeStructBegin (bytes name) ++ fields ++ W.writeFieldStop ++ W.writeStructEnd

def writeLocation (loc : Location) : Bytes := W.writeStruct "Location" <|
  W.writeField "latitude" .double 1 (W.writeDouble loc.latitude) ++
    W.writeField "longitude" .double 2 (W.writeDouble loc.longitude)

def writeIfSet {α : Type} (field : Option α) (write : α → Bytes) : Bytes := field.elim [] write

def writeShip (ship : Ship) : Bytes := W.writeStruct "Ship" <|
  W.writeField "userId" .string 1 (W.writeString ship.userId) ++
    W.writeField "nickName" .string 2 (W.writeString ship.nickName) ++
    W.writeField "shipType" .i32 3 (W.writeI32 ship.shipType) ++
    W.writeField "timeStamp" .i32 4 (W.writeI32 ship.timeStamp) ++
    writeIfSet ship.shipId (fun v => W.writeField "shipId" .i32 5 (W.writeI32 v)) ++
    writeIfSet ship.text (fun v => W.writeField "text" .string 6 (W.writeString v)) ++
    writeIfSet ship.picture (fun v => W.writeField "picture" .string 7 (W.writeBinary v)) ++
    writeIfSet ship.animation (fun v => W.writeField "animation" .string 8 (W.writeBinary v)) ++
    writeIfSet ship.loc (fun v => W.writeField "loc" .struct 9 (W.writeLocation v)) ++
    writeIfSet ship.action (fun v => W.writeField "action" .string 10 (W.writeString v)) ++
    writeIfSet ship.texId (fun v => W.writeField "texId" .string 11 (W.writeString v))

def stringPargs (struct field : String) (value : Bytes) : Bytes :=
  W.writeStruct struct (W.writeField field .string 1 (W.writeString value))

/-- The arguments of a method whose only field is one i64, which has the code 10. -/
def i64Pargs (struct field : String) (value : Int) : Bytes :=
  W.writeStruct struct (W.writeField field (.other 10) 1 (W.writeI64 value))

def shipPargs (struct field : String) (value : Bytes) (ship : Ship) : Bytes :=
  W.writeStruct struct <|
    W.writeField field .string 1 (W.writeString value) ++
      W.writeField "ship" .struct 2 (W.writeShip ship)

def getVersionPargs : Bytes := W.writeStruct "talkServer_getVersion_pargs" []

def setUserNamePargs (name : Bytes) : Bytes :=
  W.stringPargs "talkServer_setUserName_pargs" "name" name

def subscribePargs (topic : Bytes) : Bytes :=
  W.stringPargs "talkServer_subscribe_pargs" "topic" topic

def unsubscribePargs (topic : Bytes) : Bytes :=
  W.stringPargs "talkServer_unsubscribe_pargs" "topic" topic

def postShipPargs (channel : Bytes) (ship : Ship) : Bytes :=
  W.shipPargs "talkServer_postShip_pargs" "channel" channel ship

def onGetVersionPargs (version : Bytes) : Bytes :=
  W.stringPargs "talkClient_on_getVersion_pargs" "version" version

def onGetVersionFailedPargs (why : Bytes) : Bytes :=
  W.stringPargs "talkClient_on_getVersion_failed_pargs" "why" why

def onSetUserNameSucceededPargs (userId : Int) : Bytes :=
  W.i64Pargs "talkClient_on_setUserName_succeeded_pargs" "userId" userId

def onSetUserNameFailedPargs (why : Bytes) : Bytes :=
  W.stringPargs "talkClient_on_setUserName_failed_pargs" "why" why

def onSubscribePargs (topicId : Int) : Bytes :=
  W.i64Pargs "talkClient_on_subscribe_pargs" "topicId" topicId

def onSubscribeFailedPargs (why : Bytes) : Bytes :=
  W.stringPargs "talkClient_on_subscribe_failed_pargs" "why" why

def onUnsubscribeSucceededPargs : Bytes :=
  W.writeStruct "talkClient_on_unsubscribe_succeeded_pargs" []

def onUnsubscribeFailedPargs (why : Bytes) : Bytes :=
  W.stringPargs "talkClient_on_unsubscribe_failed_pargs" "why" why

def onSubscribeShipPargs (name : Bytes) (ship : Ship) : Bytes :=
  W.shipPargs "talkClient_on_subscribeShip_pargs" "name" name ship

def onSubscribeShipFailedPargs (why : Bytes) : Bytes :=
  W.stringPargs "talkClient_on_subscribeShip_failed_pargs" "why" why

/-- What every `send_X` has written when it flushes; `cseqid` is 0. -/
def sendOneway (fname : String) (pargs : Bytes) : Bytes :=
  W.writeMessageBegin (bytes fname) .oneway 0 ++ pargs ++ W.writeMessageEnd

def talkServerClient : TalkServerIf → Bytes
  | .getVersion => W.sendOneway "getVersion" W.getVersionPargs
  | .setUserName name => W.sendOneway "setUserName" (W.setUserNamePargs name)
  | .subscribe topic => W.sendOneway "subscribe" (W.subscribePargs topic)
  | .unsubscribe topic => W.sendOneway "unsubscribe" (W.unsubscribePargs topic)
  | .postShip channel ship => W.sendOneway "postShip" (W.postShipPargs channel ship)

def talkClientClient : TalkClientIf → Bytes
  | .onGetVersion version => W.sendOneway "on_getVersion" (W.onGetVersionPargs version)
  | .onGetVersionFailed why =>
    W.sendOneway "on_getVersion_failed" (W.onGetVersionFailedPargs why)
  | .onSetUserNameSucceeded userId =>
    W.sendOneway "on_setUserName_succeeded" (W.onSetUserNameSucceededPargs userId)
  | .onSetUserNameFailed why =>
    W.sendOneway "on_setUserName_failed" (W.onSetUserNameFailedPargs why)
  | .onSubscribe topicId => W.sendOneway "on_subscribe" (W.onSubscribePargs topicId)
  | .onSubscribeFailed why => W.sendOneway "on_subscribe_failed" (W.onSubscribeFailedPargs why)
  | .onUnsubscribeSucceeded =>
    W.sendOneway "on_unsubscribe_succeeded" W.onUnsubscribeSucceededPargs
  | .onUnsubscribeFailed why =>
    W.sendOneway "on_unsubscribe_failed" (W.onUnsubscribeFailedPargs why)
  | .onSubscribeShip name ship =>
    W.sendOneway "on_subscribeShip" (W.onSubscribeShipPargs name ship)
  | .onSubscribeShipFailed why =>
    W.sendOneway "on_subscribeShip_failed" (W.onSubscribeShipFailedPargs why)

/-- `TFramedTransport::flush` hands down what was written as one buffer, if there is any. -/
def flush (payload : Bytes) : Bytes := if payload = [] then [] else encodeFrame payload

end OutputProtocol

end ThriftAsio
