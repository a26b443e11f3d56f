import ThriftAsio.RoundTrips

/-! The messages of both services across the wire: what a generated client sends, the processor at
the other end reads as the same call, and takes exactly the message. So a message that is cut off
is refused, wherever the cut is. -/

namespace ThriftAsio
open Decoder

namespace TalkServerIf

def request : TalkServerIf → Request
  | .getVersion => .getVersion
  | .setUserName name => .setUserName name
  | .subscribe topic => .subscribe topic
  | .unsubscribe topic => .unsubscribe topic
  | .postShip channel ship => .postShip channel ship

/-- The arguments can be written. -/
def Fits : TalkServerIf → Prop
  | .getVersion => True
  | .setUserName str | .subscribe str | .unsubscribe str => SizeFits str
  | .postShip channel ship => SizeFits channel ∧ ship.Fits

end TalkServerIf

def TalkClientIf.Fits : TalkClientIf → Prop
  | .onGetVersion str | .onGetVersionFailed str | .onSetUserNameFailed str
  | .onSubscribeFailed str | .onUnsubscribeFailed str | .onSubscribeShipFailed str => SizeFits str
  | .onSetUserNameSucceeded n | .onSubscribe n => IsI64 n
  | .onUnsubscribeSucceeded => True
  | .onSubscribeShip name ship => SizeFits name ∧ ship.Fits

theorem lookup_of_mem {κ ρ : Type} [BEq κ] [LawfulBEq κ] {entries : List (κ × ρ)} {k : κ} {v : ρ}
    (distinct : (entries.map Prod.fst).Nodup) (mem : (k, v) ∈ entries) :
    entries.lookup k = some v := by
  induction entries with
  | nil => cases mem
  | cons e entries ih =>
    obtain ⟨new, others⟩ := List.nodup_cons.mp distinct
    rcases List.mem_cons.mp mem with rfl | later
    · rw [List.lookup_cons, beq_self_eq_true]
    · have other : k ≠ e.1 := fun same =>
        new (same ▸ List.mem_map.mpr ⟨_, later, rfl⟩)
      rw [List.lookup_cons, beq_eq_false_iff_ne.mpr other]
      exact ih others later

/-- What is behind the bytes that the library takes does not matter to it. -/
structure Thrift.Extends (T : Thrift) : Prop where
  begin : T.begin.Extends
  readMessageEnd : T.readMessageEnd.Extends
  readEnd : T.readEnd.Extends
  readStructBegin : T.readStructBegin.Extends
  readStructEnd : T.readStructEnd.Extends
  readFieldBegin : T.readFieldBegin.Extends
  readFieldEnd : T.readFieldEnd.Extends
  readString : T.readString.Extends
  readBinary : T.readBinary.Extends
  readI32 : T.readI32.Extends
  readDouble : T.readDouble.Extends
  skip : ∀ ftype, (T.skip ftype).Extends

structure ClientThrift.Extends (T : ClientThrift) : Prop extends T.toThrift.Extends where
  readI64 : T.readI64.Extends

namespace Thrift

section Extends

variable {T : Thrift} {σ : Type}

theorem Extends.readStruct (lib : T.Extends) {field : σ → TType × Int → Reader σ}
    (each : ∀ s f, (field s f).Extends) (s : σ) : (T.readStruct field s).Extends := by
  refine lib.readStructBegin.bind fun _ => Extends.bind ?_ fun s =>
    lib.readStructEnd.bind fun _ => extends_pure s
  exact Extends.loop lib.readFieldBegin
    (fun s f => (each s f).bind fun s => lib.readFieldEnd.bind fun _ => extends_pure s) s

theorem Extends.readLocation (lib : T.Extends) : T.readLocation.Extends := by
  refine (lib.readStruct (fun l f => ?_) _).bind fun l => ?_
  · unfold locationField
    split
    · exact lib.readDouble.bind fun _ => extends_pure _
    · exact lib.readDouble.bind fun _ => extends_pure _
    · exact (lib.skip _).bind fun _ => extends_pure _
  · split
    · exact extends_pure _
    · exact extends_fail _

theorem Extends.readShip (lib : T.Extends) (ship : Ship) : (T.readShip ship).Extends := by
  refine (lib.readStruct (fun s f => ?_) _).bind fun s => ?_
  · unfold shipField
    split
    · exact lib.readString.bind fun _ => extends_pure _
    · exact lib.readString.bind fun _ => extends_pure _
    · exact lib.readI32.bind fun _ => extends_pure _
    · exact lib.readI32.bind fun _ => extends_pure _
    · exact lib.readI32.bind fun _ => extends_pure _
    · exact lib.readString.bind fun _ => extends_pure _
    · exact lib.readBinary.bind fun _ => extends_pure _
    · exact lib.readBinary.bind fun _ => extends_pure _
    · exact lib.readLocation.bind fun _ => extends_pure _
    · exact lib.readString.bind fun _ => extends_pure _
    · exact lib.readString.bind fun _ => extends_pure _
    · exact (lib.skip _).bind fun _ => extends_pure _
  · split
    · exact extends_pure _
    · exact extends_fail _

theorem Extends.noField (lib : T.Extends) : (T.readStruct T.noField ()).Extends :=
  lib.readStruct (fun _ _ => (lib.skip _).bind fun _ => extends_pure _) ()

theorem Extends.stringArgs (lib : T.Extends) : T.stringArgs.Extends := by
  refine (lib.readStruct (fun s f => ?_) _).bind fun s => ?_
  · unfold stringField
    split
    · exact lib.readString.bind fun _ => extends_pure _
    · exact (lib.skip _).bind fun _ => extends_pure _
  · split
    · exact extends_pure _
    · exact extends_fail _

theorem Extends.postShipArgs (lib : T.Extends) : T.postShipArgs.Extends := by
  refine (lib.readStruct (fun s f => ?_) _).bind fun s => ?_
  · unfold postShipField
    split
    · exact lib.readString.bind fun _ => extends_pure _
    · exact (lib.readShip _).bind fun _ => extends_pure _
    · exact (lib.skip _).bind fun _ => extends_pure _
  · split
    · exact extends_pure _
    · exact extends_fail _

theorem Extends.processRead (lib : T.Extends) {args : Reader Request} (reads : args.Extends) :
    (T.processRead args).Extends :=
  reads.bind fun r => lib.readMessageEnd.bind fun _ => lib.readEnd.bind fun _ => extends_pure r

theorem Extends.readRequest (lib : T.Extends) : T.readRequest.Extends := by
  refine lib.begin.bind fun head => ?_
  split
  · exact extends_pure _
  · rename_i fname seqid
    rw [dispatchCall, processMap]
    split
    · exact lib.processRead (lib.noField.bind fun _ => extends_pure _)
    · split
      · exact lib.processRead (lib.stringArgs.bind fun _ => extends_pure _)
      · split
        · exact lib.processRead (lib.stringArgs.bind fun _ => extends_pure _)
        · split
          · exact lib.processRead (lib.stringArgs.bind fun _ => extends_pure _)
          · split
            · exact lib.processRead (lib.postShipArgs.bind fun _ => extends_pure _)
            · exact lib.processRead ((lib.skip _).bind fun _ => extends_pure _)

end Extends

variable {T : Thrift} {W : OutputProtocol}

theorem ReadsBack.processRead (laws : T.ReadsBack W) {args : Reader Request} {pargs : Bytes}
    {r : Request} (reads : args.Yields pargs (.ok r)) :
    (T.processRead args).Yields (pargs ++ W.writeMessageEnd) (.ok r) :=
  reads.bind (laws.messageEnd.bind_nil (laws.readEnd.bind_nil (yields_pure r)))

theorem ReadsBack.oneway (laws : T.ReadsBack W) {fname : String} {pargs : Bytes} {r : Request}
    (size : SizeFits (bytes fname))
    (reads : (T.dispatchCall (bytes fname) 0).Yields (pargs ++ W.writeMessageEnd) (.ok r)) :
    T.readRequest.Yields (W.sendOneway fname pargs) (.ok r) := by
  rw [OutputProtocol.sendOneway, List.append_assoc]
  exact (laws.messageBegin (bytes fname) 0 size (by decide)).bind reads

theorem ReadsBack.request (laws : T.ReadsBack W) {method : TalkServerIf} (fits : method.Fits) :
    T.readRequest.Yields (W.talkServerClient method) (.ok method.request) := by
  cases method with
  | getVersion =>
    refine laws.oneway (by decide +kernel) ?_
    rw [dispatchCall, processMap, if_pos rfl]
    exact laws.processRead ((laws.noFields _ ()).bind_nil (yields_pure _))
  | setUserName name =>
    refine laws.oneway (by decide +kernel) ?_
    rw [dispatchCall, processMap, if_neg (by decide +kernel), if_pos rfl]
    exact laws.processRead ((laws.stringArgs _ _ fits).map _)
  | subscribe topic =>
    refine laws.oneway (by decide +kernel) ?_
    rw [dispatchCall, processMap, if_neg (by decide +kernel), if_neg (by decide +kernel),
      if_pos rfl]
    exact laws.processRead ((laws.stringArgs _ _ fits).map _)
  | unsubscribe topic =>
    refine laws.oneway (by decide +kernel) ?_
    rw [dispatchCall, processMap, if_neg (by decide +kernel), if_neg (by decide +kernel),
      if_neg (by decide +kernel), if_pos rfl]
    exact laws.processRead ((laws.stringArgs _ _ fits).map _)
  | postShip channel ship =>
    refine laws.oneway (by decide +kernel) ?_
    rw [dispatchCall, processMap, if_neg (by decide +kernel), if_neg (by decide +kernel),
      if_neg (by decide +kernel), if_neg (by decide +kernel), if_pos rfl]
    exact laws.processRead ((laws.shipArgs _ _ fits.1 fits.2).bind_nil (yields_pure _))

end Thrift

namespace ClientThrift

variable {T : ClientThrift} {W : OutputProtocol}

theorem ReadsBack.processRead (laws : T.ReadsBack W) {args : Reader Incoming} {pargs : Bytes}
    {r : Incoming} (reads : args.Yields pargs (.ok r)) :
    (T.processRead args).Yields (pargs ++ W.writeMessageEnd) (.ok r) :=
  reads.bind (laws.messageEnd.bind_nil (laws.readEnd.bind_nil (yields_pure r)))

theorem dispatchCall_of_mem {fname : Bytes} {reader : Reader Incoming}
    (mem : (fname, reader) ∈ T.processMap) (seqid : Int) :
    T.dispatchCall fname seqid = reader := by
  have distinct : (T.processMap.map Prod.fst).Nodup := by
    change [bytes "on_getVersion", bytes "on_getVersion_failed",
      bytes "on_setUserName_succeeded", bytes "on_setUserName_failed", bytes "on_subscribe",
      bytes "on_subscribe_failed", bytes "on_unsubscribe_succeeded",
      bytes "on_unsubscribe_failed", bytes "on_subscribeShip",
      bytes "on_subscribeShip_failed"].Nodup
    decide +kernel
  rw [dispatchCall, lookup_of_mem distinct mem, Option.getD_some]

theorem ReadsBack.oneway (laws : T.ReadsBack W) {fname : String} {pargs : Bytes}
    {args : Reader Incoming} {r : Incoming} (i : Nat)
    (mem : T.processMap[i]? = some (bytes fname, T.processRead args))
    (size : SizeFits (bytes fname)) (reads : args.Yields pargs (.ok r)) :
    T.readIncoming.Yields (W.sendOneway fname pargs) (.ok r) := by
  rw [OutputProtocol.sendOneway, List.append_assoc]
  refine (laws.messageBegin (bytes fname) 0 size (by decide)).bind ?_
  have dispatched := dispatchCall_of_mem (List.mem_of_getElem? mem) 0
  change (T.dispatchCall (bytes fname) 0).Yields _ _
  rw [dispatched]
  exact laws.processRead reads

theorem ReadsBack.incoming (laws : T.ReadsBack W) {method : TalkClientIf} (fits : method.Fits) :
    T.readIncoming.Yields (W.talkClientClient method) (.ok (.call method)) := by
  cases method with
  | onGetVersion version =>
    exact laws.oneway 0 rfl (by decide +kernel) ((laws.stringArgs _ _ fits).map _)
  | onGetVersionFailed why =>
    exact laws.oneway 1 rfl (by decide +kernel) ((laws.stringArgs _ _ fits).map _)
  | onSetUserNameSucceeded userId =>
    exact laws.oneway 2 rfl (by decide +kernel) ((laws.i64Args _ _ fits).map _)
  | onSetUserNameFailed why =>
    exact laws.oneway 3 rfl (by decide +kernel) ((laws.stringArgs _ _ fits).map _)
  | onSubscribe topicId =>
    exact laws.oneway 4 rfl (by decide +kernel) ((laws.i64Args _ _ fits).map _)
  | onSubscribeFailed why =>
    exact laws.oneway 5 rfl (by decide +kernel) ((laws.stringArgs _ _ fits).map _)
  | onUnsubscribeSucceeded =>
    exact laws.oneway 6 rfl (by decide +kernel)
      ((laws.noFields _ ()).bind_nil (yields_pure _))
  | onUnsubscribeFailed why =>
    exact laws.oneway 7 rfl (by decide +kernel) ((laws.stringArgs _ _ fits).map _)
  | onSubscribeShip name ship =>
    exact laws.oneway 8 rfl (by decide +kernel)
      ((laws.shipArgs _ _ fits.1 fits.2).bind_nil (yields_pure _))
  | onSubscribeShipFailed why =>
    exact laws.oneway 9 rfl (by decide +kernel) ((laws.stringArgs _ _ fits).map _)

theorem Extends.i64Args (lib : T.Extends) : T.i64Args.Extends := by
  refine (lib.readStruct (fun s f => ?_) _).bind fun s => ?_
  · unfold i64Field
    split
    · exact lib.readI64.bind fun _ => extends_pure _
    · exact (lib.skip _).bind fun _ => extends_pure _
  · split
    · exact extends_pure _
    · exact extends_fail _

theorem Extends.processRead (lib : T.Extends) {args : Reader Incoming} (reads : args.Extends) :
    (T.processRead args).Extends :=
  reads.bind fun r => lib.readMessageEnd.bind fun _ => lib.readEnd.bind fun _ => extends_pure r

theorem Extends.readIncoming (lib : T.Extends) : T.readIncoming.Extends := by
  have string : ∀ call : Bytes → TalkClientIf,
      (T.processRead (do return .call (call (← T.stringArgs)))).Extends :=
    fun call => lib.processRead (lib.stringArgs.bind fun _ => extends_pure _)
  have i64 : ∀ call : Int → TalkClientIf,
      (T.processRead (do return .call (call (← T.i64Args)))).Extends :=
    fun call => lib.processRead (lib.i64Args.bind fun _ => extends_pure _)
  have all : ∀ entry ∈ T.processMap, (entry.2 : Reader Incoming).Extends := by
    simp only [processMap, List.forall_mem_cons]
    exact ⟨string _, string _, i64 _, string _, i64 _, string _,
      lib.processRead (lib.noField.bind fun _ => extends_pure _), string _,
      lib.processRead (lib.postShipArgs.bind fun _ => extends_pure _), string _,
      fun _ none => absurd none List.not_mem_nil⟩
  refine lib.begin.bind fun head => ?_
  split
  · exact extends_pure _
  · rename_i fname seqid
    rw [dispatchCall]
    cases found : T.processMap.lookup fname with
    | none => exact lib.processRead ((lib.skip _).bind fun _ => extends_pure _)
    | some reader =>
      obtain ⟨before, after, split, -⟩ := List.lookup_eq_some_iff.mp found
      exact all (fname, reader) (by rw [split]; simp)

end ClientThrift

end ThriftAsio
