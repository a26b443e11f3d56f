import ThriftAsio.Codec
import ThriftAsio.Writers

/-! What the generated writers write, the generated readers read back. Between the two stands the
list of the fields of a struct, which may come in any order and with fields that the reader does
not know; the writers make one such list. -/

namespace ThriftAsio
open Decoder

def SizeFits (str : Bytes) : Prop := str.length < 2 ^ 31

def IsI16 (n : Int) : Prop := -2 ^ 15 ≤ n ∧ n < 2 ^ 15

def IsI32 (n : Int) : Prop := -2 ^ 31 ≤ n ∧ n < 2 ^ 31

def IsI64 (n : Int) : Prop := -2 ^ 63 ≤ n ∧ n < 2 ^ 63

instance : DecidablePred SizeFits := fun _ => inferInstanceAs (Decidable (_ < _))

instance : DecidablePred IsI16 := fun _ => inferInstanceAs (Decidable (_ ∧ _))

instance : DecidablePred IsI32 := fun _ => inferInstanceAs (Decidable (_ ∧ _))

instance : DecidablePred IsI64 := fun _ => inferInstanceAs (Decidable (_ ∧ _))

/-- A field has this type; the codes that have a name of their own are not among the others. -/
def TType.OfField : TType → Prop
  | .stop => False
  | .other code => code ∉ ([0, 4, 8, 11, 12] : List UInt8)
  | _ => True

/-- The library reads back what it has written, and nothing behind it. -/
structure Thrift.ReadsBack (T : Thrift) (W : OutputProtocol) : Prop where
  messageBegin : ∀ name seqid, SizeFits name → IsI32 seqid →
    T.begin.Yields (W.writeMessageBegin name .oneway seqid) (.ok (some (name, seqid)))
  messageEnd : T.readMessageEnd.Yields W.writeMessageEnd (.ok ())
  readEnd : T.readEnd.Yields [] (.ok ())
  structBegin : ∀ name, T.readStructBegin.Yields (W.writeStructBegin name) (.ok ())
  structEnd : T.readStructEnd.Yields W.writeStructEnd (.ok ())
  fieldBegin : ∀ name ftype fid, ftype.OfField → IsI16 fid →
    T.readFieldBegin.Yields (W.writeFieldBegin name ftype fid) (ftype, fid)
  fieldEnd : T.readFieldEnd.Yields W.writeFieldEnd (.ok ())
  fieldStop : ∃ fid, T.readFieldBegin.Yields W.writeFieldStop (.stop, fid)
  string : ∀ str, SizeFits str → T.readString.Yields (W.writeString str) (.ok str)
  binary : ∀ str, SizeFits str → T.readBinary.Yields (W.writeBinary str) (.ok str)
  i32 : ∀ n, IsI32 n → T.readI32.Yields (W.writeI32 n) (.ok n)
  double : ∀ bits, T.readDouble.Yields (W.writeDouble bits) (.ok bits)

structure ClientThrift.ReadsBack (T : ClientThrift) (W : OutputProtocol) : Prop
    extends T.toThrift.ReadsBack W where
  i64 : ∀ n, IsI64 n → T.readI64.Yields (W.writeI64 n) (.ok n)

structure Ship.Fits (ship : Ship) : Prop where
  userId : SizeFits ship.userId
  nickName : SizeFits ship.nickName
  shipType : IsI32 ship.shipType
  timeStamp : IsI32 ship.timeStamp
  shipId : ∀ v ∈ ship.shipId, IsI32 v
  text : ∀ v ∈ ship.text, SizeFits v
  picture : ∀ v ∈ ship.picture, SizeFits v
  animation : ∀ v ∈ ship.animation, SizeFits v
  action : ∀ v ∈ ship.action, SizeFits v
  texId : ∀ v ∈ ship.texId, SizeFits v

namespace Thrift

/-- The bytes are one field, and reading it changes the reader's variables like this. -/
def FieldRound (T : Thrift) {σ : Type} (field : σ → TType × Int → Reader σ) (value : Bytes)
    (f : σ → σ) : Prop :=
  Round T.readFieldBegin (fun f => f.1 = .stop) (fun s f => do
    let s ← field s f
    T.readFieldEnd
    pure s) value f

section ReadsBack

variable {T : Thrift} {W : OutputProtocol} {σ : Type} {field : σ → TType × Int → Reader σ}

theorem ReadsBack.round (laws : T.ReadsBack W) (name : String) (ftype : TType) (fid : Int)
    (kind : ftype.OfField) (id : IsI16 fid) {value : Bytes} {f : σ → σ}
    (reads : ∀ s, (field s (ftype, fid)).Yields value (.ok (f s))) :
    T.FieldRound field (W.writeField name ftype fid value) f := by
  refine ⟨_, _, (ftype, fid), List.append_assoc _ _ _, laws.fieldBegin _ ftype fid kind id, ?_,
    fun s => (reads s).bind (laws.fieldEnd.bind_nil (yields_pure _))⟩
  cases ftype with
  | stop => exact kind.elim
  | _ => rfl

theorem ReadsBack.struct (laws : T.ReadsBack W) (name : String)
    (rounds : List (Bytes × (σ → σ))) (each : ∀ r ∈ rounds, T.FieldRound field r.1 r.2) (s : σ) :
    (T.readStruct field s).Yields (W.writeStruct name (rounds.flatMap Prod.fst))
      (.ok (rounds.foldl (fun s r => r.2 s) s)) := by
  obtain ⟨fid, stop⟩ := laws.fieldStop
  have fields := yields_loop each stop rfl s
  rw [OutputProtocol.writeStruct, List.append_assoc, List.append_assoc, ← List.append_assoc _ _
    W.writeStructEnd]
  refine (laws.structBegin (bytes name)).bind (fields.bind ?_)
  exact laws.structEnd.bind_nil (yields_pure _)

theorem ReadsBack.noFields (laws : T.ReadsBack W) (name : String) (s : σ) :
    (T.readStruct field s).Yields (W.writeStruct name []) (.ok s) :=
  laws.struct name [] (fun _ none => absurd none List.not_mem_nil) s

theorem ReadsBack.fieldStop_ne_nil (laws : T.ReadsBack W) : W.writeFieldStop ≠ [] := by
  obtain ⟨fid, stop⟩ := laws.fieldStop
  intro none
  have taken := Eater.out_length (stop [])
  rw [none] at taken
  exact Nat.lt_irrefl _ taken

theorem ReadsBack.location (laws : T.ReadsBack W) (loc : Location) :
    T.readLocation.Yields (W.writeLocation loc) (.ok loc) := by
  have latitude : T.FieldRound T.locationField
      (W.writeField "latitude" .double 1 (W.writeDouble loc.latitude))
      (fun l => { l with latitude := some loc.latitude }) :=
    laws.round "latitude" .double 1 trivial (by decide) fun l =>
      (laws.double loc.latitude).map _
  have longitude : T.FieldRound T.locationField
      (W.writeField "longitude" .double 2 (W.writeDouble loc.longitude))
      (fun l => { l with longitude := some loc.longitude }) :=
    laws.round "longitude" .double 2 trivial (by decide) fun l =>
      (laws.double loc.longitude).map _
  have fields := laws.struct "Location" [(_, _), (_, _)]
    (List.forall_mem_cons.mpr ⟨latitude, List.forall_mem_singleton.mpr longitude⟩) {}
  rw [List.flatMap_cons, List.flatMap_singleton] at fields
  exact fields.bind_nil (yields_pure loc)

end ReadsBack

end Thrift

/-- A field as it may stand in the struct of a ship. -/
inductive ShipField where
  | userId (value : Bytes)
  | nickName (value : Bytes)
  | shipType (value : Int)
  | timeStamp (value : Int)
  | shipId (value : Int)
  | text (value : Bytes)
  | picture (value : Bytes)
  | animation (value : Bytes)
  | loc (value : Location)
  | action (value : Bytes)
  | texId (value : Bytes)
  /-- One that `Ship::read` does not know, or not with this type. -/
  | other (name : String) (ftype : TType) (fid : Int) (value : Bytes)
  deriving DecidableEq, Repr

namespace ShipField

def known : List (TType × Int) :=
  [(.string, 1), (.string, 2), (.i32, 3), (.i32, 4), (.i32, 5), (.string, 6), (.string, 7),
    (.string, 8), (.struct, 9), (.string, 10), (.string, 11)]

def write (W : OutputProtocol) : ShipField → Bytes
  | .userId value => W.writeField "userId" .string 1 (W.writeString value)
  | .nickName value => W.writeField "nickName" .string 2 (W.writeString value)
  | .shipType value => W.writeField "shipType" .i32 3 (W.writeI32 value)
  | .timeStamp value => W.writeField "timeStamp" .i32 4 (W.writeI32 value)
  | .shipId value => W.writeField "shipId" .i32 5 (W.writeI32 value)
  | .text value => W.writeField "text" .string 6 (W.writeString value)
  | .picture value => W.writeField "picture" .string 7 (W.writeBinary value)
  | .animation value => W.writeField "animation" .string 8 (W.writeBinary value)
  | .loc value => W.writeField "loc" .struct 9 (W.writeLocation value)
  | .action value => W.writeField "action" .string 10 (W.writeString value)
  | .texId value => W.writeField "texId" .string 11 (W.writeString value)
  | .other name ftype fid value => W.writeField name ftype fid value

def set (ship : Ship) : ShipField → Ship
  | .userId value => { ship with userId := value }
  | .nickName value => { ship with nickName := value }
  | .shipType value => { ship with shipType := value }
  | .timeStamp value => { ship with timeStamp := value }
  | .shipId value => { ship with shipId := some value }
  | .text value => { ship with text := some value }
  | .picture value => { ship with picture := some value }
  | .animation value => { ship with animation := some value }
  | .loc value => { ship with loc := some value }
  | .action value => { ship with action := some value }
  | .texId value => { ship with texId := some value }
  | .other _ _ _ _ => ship

def Fits (T : Thrift) : ShipField → Prop
  | .userId value | .nickName value | .text value | .picture value | .animation value
  | .action value | .texId value => SizeFits value
  | .shipType value | .timeStamp value | .shipId value => IsI32 value
  | .loc _ => True
  | .other _ ftype fid value =>
    ftype.OfField ∧ IsI16 fid ∧ (ftype, fid) ∉ known ∧ (T.skip ftype).Yields value (.ok ())

def isUserId : ShipField → Bool
  | .userId _ => true
  | _ => false

def isNickName : ShipField → Bool
  | .nickName _ => true
  | _ => false

def isShipType : ShipField → Bool
  | .shipType _ => true
  | _ => false

def isTimeStamp : ShipField → Bool
  | .timeStamp _ => true
  | _ => false

/-- The fields that are required in the interface are there. -/
def Complete (fields : List ShipField) : Prop :=
  fields.any isUserId ∧ fields.any isNickName ∧ fields.any isShipType ∧ fields.any isTimeStamp

instance : DecidablePred Complete := fun _ => inferInstanceAs (Decidable (_ ∧ _))

def note (s : Thrift.ShipRead) (f : ShipField) : Thrift.ShipRead where
  ship := set s.ship f
  issetUserId := f.isUserId || s.issetUserId
  issetNickName := f.isNickName || s.issetNickName
  issetShipType := f.isShipType || s.issetShipType
  issetTimeStamp := f.isTimeStamp || s.issetTimeStamp

theorem foldl_note (fields : List ShipField) (s : Thrift.ShipRead) :
    fields.foldl note s =
      { ship := fields.foldl set s.ship
        issetUserId := fields.any isUserId || s.issetUserId
        issetNickName := fields.any isNickName || s.issetNickName
        issetShipType := fields.any isShipType || s.issetShipType
        issetTimeStamp := fields.any isTimeStamp || s.issetTimeStamp } := by
  induction fields generalizing s with
  | nil => simp
  | cons f fields ih => simp [ih, note, Bool.or_assoc, Bool.or_left_comm]

end ShipField

namespace Thrift

theorem shipField_other (T : Thrift) (s : ShipRead) {ftype : TType} {fid : Int}
    (unknown : (ftype, fid) ∉ ShipField.known) :
    T.shipField s (ftype, fid) = (do
      T.skip ftype
      pure s) := by
  unfold shipField
  split
  case h_12 => simp_all
  all_goals simp_all [ShipField.known]

section ShipReadsBack

variable {T : Thrift} {W : OutputProtocol}

theorem ReadsBack.shipField (laws : T.ReadsBack W) {f : ShipField} (fits : f.Fits T) :
    T.FieldRound T.shipField (f.write W) (fun s => f.note s) := by
  cases f with
  | userId value =>
    exact laws.round "userId" .string 1 trivial (by decide) fun s =>
      (laws.string value fits).map _
  | nickName value =>
    exact laws.round "nickName" .string 2 trivial (by decide) fun s =>
      (laws.string value fits).map _
  | shipType value =>
    exact laws.round "shipType" .i32 3 trivial (by decide) fun s =>
      (laws.i32 value fits).map _
  | timeStamp value =>
    exact laws.round "timeStamp" .i32 4 trivial (by decide) fun s =>
      (laws.i32 value fits).map _
  | shipId value =>
    exact laws.round "shipId" .i32 5 trivial (by decide) fun s =>
      (laws.i32 value fits).map _
  | text value =>
    exact laws.round "text" .string 6 trivial (by decide) fun s =>
      (laws.string value fits).map _
  | picture value =>
    exact laws.round "picture" .string 7 trivial (by decide) fun s =>
      (laws.binary value fits).map _
  | animation value =>
    exact laws.round "animation" .string 8 trivial (by decide) fun s =>
      (laws.binary value fits).map _
  | loc value =>
    exact laws.round "loc" .struct 9 trivial (by decide) fun s =>
      (laws.location value).map _
  | action value =>
    exact laws.round "action" .string 10 trivial (by decide) fun s =>
      (laws.string value fits).map _
  | texId value =>
    exact laws.round "texId" .string 11 trivial (by decide) fun s =>
      (laws.string value fits).map _
  | other name ftype fid value =>
    obtain ⟨kind, id, unknown, skips⟩ := fits
    refine laws.round name ftype fid kind id fun s => ?_
    rw [shipField_other T s unknown]
    exact skips.bind_nil (yields_pure s)

/-- `Ship::read` takes the fields as they come, in any order and with others between them: a
later one overrides an earlier one, and what is not sent stays as it was. It accepts them exactly
if the required ones are there. -/
theorem ReadsBack.readShip (laws : T.ReadsBack W) {fields : List ShipField}
    (fits : ∀ f ∈ fields, f.Fits T) (ship : Ship) :
    (T.readShip ship).Yields (W.writeStruct "Ship" (fields.flatMap (ShipField.write W)))
      (if ShipField.Complete fields then .ok (fields.foldl ShipField.set ship)
        else .error .invalidData) := by
  let rounds : List (Bytes × (ShipRead → ShipRead)) :=
    fields.map fun f => (f.write W, fun s => f.note s)
  have each : ∀ r ∈ rounds, T.FieldRound T.shipField r.1 r.2 := by
    intro r hr
    obtain ⟨f, mem, rfl⟩ := List.mem_map.mp hr
    exact laws.shipField (fits f mem)
  have read := laws.struct "Ship" rounds each { ship := ship }
  rw [List.flatMap_map, List.foldl_map, ShipField.foldl_note] at read
  refine read.bind_nil ?_
  by_cases complete : ShipField.Complete fields
  · rw [if_pos complete, if_pos (by simpa [ShipField.Complete, and_assoc] using complete)]
    exact yields_pure _
  · rw [if_neg complete, if_neg (by simpa [ShipField.Complete, and_assoc] using complete)]
    exact yields_fail _

end ShipReadsBack

end Thrift

namespace Ship

def fields (ship : Ship) : List ShipField :=
  [.userId ship.userId, .nickName ship.nickName, .shipType ship.shipType,
    .timeStamp ship.timeStamp] ++ ship.shipId.toList.map .shipId ++ ship.text.toList.map .text ++
    ship.picture.toList.map .picture ++ ship.animation.toList.map .animation ++
    ship.loc.toList.map .loc ++ ship.action.toList.map .action ++ ship.texId.toList.map .texId

/-- A ship as it is after another one was read into it. -/
def updatedBy (old ship : Ship) : Ship :=
  { ship with
    shipId := ship.shipId.or old.shipId
    text := ship.text.or old.text
    picture := ship.picture.or old.picture
    animation := ship.animation.or old.animation
    loc := ship.loc.or old.loc
    action := ship.action.or old.action
    texId := ship.texId.or old.texId }

theorem flatMap_toList_map {α : Type} (W : OutputProtocol) (v : Option α) (f : α → ShipField) :
    (v.toList.map f).flatMap (ShipField.write W) =
      OutputProtocol.writeIfSet v fun x => (f x).write W := by
  cases v <;> simp [OutputProtocol.writeIfSet]

theorem writeShip_eq (W : OutputProtocol) (ship : Ship) :
    W.writeShip ship = W.writeStruct "Ship" (ship.fields.flatMap (ShipField.write W)) := by
  simp only [fields, List.flatMap_append, flatMap_toList_map, OutputProtocol.writeShip,
    List.flatMap_cons, List.flatMap_nil, List.append_nil, ShipField.write, List.append_assoc]

theorem foldl_fields (ship old : Ship) :
    ship.fields.foldl ShipField.set old = updatedBy old ship := by
  have optional : ∀ {α : Type} (v : Option α) (f : α → ShipField) (s : Ship),
      (v.toList.map f).foldl ShipField.set s = v.elim s fun x => ShipField.set s (f x) := by
    intro α v f s
    cases v <;> rfl
  obtain ⟨userId, nickName, shipType, timeStamp, shipId, text, picture, animation, loc, action,
    texId⟩ := ship
  simp only [fields, List.foldl_append, optional]
  cases shipId <;> cases text <;> cases picture <;> cases animation <;> cases loc <;>
    cases action <;> cases texId <;> rfl

theorem complete_fields (ship : Ship) : ShipField.Complete ship.fields := by
  simp [ShipField.Complete, fields, ShipField.isUserId, ShipField.isNickName,
    ShipField.isShipType, ShipField.isTimeStamp]

theorem updatedBy_default (ship : Ship) : updatedBy {} ship = ship := by simp [updatedBy]

theorem fits_fields (T : Thrift) {ship : Ship} (fits : ship.Fits) :
    ∀ f ∈ ship.fields, f.Fits T := by
  obtain ⟨userId, nickName, shipType, timeStamp, shipId, text, picture, animation, action,
    texId⟩ := fits
  intro f hf
  simp only [fields, List.mem_append, List.mem_cons, List.not_mem_nil, or_false, List.mem_map,
    Option.mem_toList] at hf
  rcases hf with (((((((rfl | rfl | rfl | rfl) | ⟨v, set, rfl⟩) | ⟨v, set, rfl⟩) |
    ⟨v, set, rfl⟩) | ⟨v, set, rfl⟩) | ⟨v, set, rfl⟩) | ⟨v, set, rfl⟩) | ⟨v, set, rfl⟩
  · exact userId
  · exact nickName
  · exact shipType
  · exact timeStamp
  · exact shipId v set
  · exact text v set
  · exact picture v set
  · exact animation v set
  · trivial
  · exact action v set
  · exact texId v set

end Ship

namespace Thrift

variable {T : Thrift} {W : OutputProtocol}

theorem ReadsBack.ship (laws : T.ReadsBack W) {ship : Ship} (fits : ship.Fits) (old : Ship) :
    (T.readShip old).Yields (W.writeShip ship) (.ok (old.updatedBy ship)) := by
  have read := laws.readShip (ship.fits_fields T fits) old
  rwa [if_pos ship.complete_fields, Ship.foldl_fields, ← Ship.writeShip_eq] at read

section Args

theorem ReadsBack.stringArgs (laws : T.ReadsBack W) (struct field : String) {value : Bytes}
    (fits : SizeFits value) :
    T.stringArgs.Yields (W.stringPargs struct field value) (.ok value) := by
  have one : T.FieldRound T.stringField (W.writeField field .string 1 (W.writeString value))
      (fun _ => some value) :=
    laws.round field .string 1 trivial (by decide) fun s => (laws.string value fits).map _
  have fields := laws.struct struct [(_, _)] (List.forall_mem_singleton.mpr one) none
  rw [List.flatMap_singleton] at fields
  exact fields.bind_nil (yields_pure value)

theorem ReadsBack.shipArgs (laws : T.ReadsBack W) (struct field : String) {value : Bytes}
    {ship : Ship} (fits : SizeFits value) (shipFits : ship.Fits) :
    T.postShipArgs.Yields (W.shipPargs struct field value ship) (.ok (value, ship)) := by
  have first : T.FieldRound T.postShipField (W.writeField field .string 1 (W.writeString value))
      (fun args => { args with channel := some value }) :=
    laws.round field .string 1 trivial (by decide) fun s => (laws.string value fits).map _
  have second : T.FieldRound T.postShipField (W.writeField "ship" .struct 2 (W.writeShip ship))
      (fun args => { args with ship := args.ship.updatedBy ship, issetShip := true }) :=
    laws.round "ship" .struct 2 trivial (by decide) fun s => (laws.ship shipFits s.ship).map _
  have fields := laws.struct struct [(_, _), (_, _)]
    (List.forall_mem_cons.mpr ⟨first, List.forall_mem_singleton.mpr second⟩) {}
  rw [List.flatMap_cons, List.flatMap_singleton] at fields
  refine fields.bind_nil ?_
  simp only [List.foldl_cons, List.foldl_nil, Ship.updatedBy_default]
  exact yields_pure _

end Args

end Thrift

theorem ClientThrift.ReadsBack.i64Args {T : ClientThrift} {W : OutputProtocol}
    (laws : T.ReadsBack W) (struct field : String) {value : Int} (fits : IsI64 value) :
    T.i64Args.Yields (W.i64Pargs struct field value) (.ok value) := by
  have one : T.toThrift.FieldRound T.i64Field
      (W.writeField field (.other 10) 1 (W.writeI64 value)) (fun _ => some value) :=
    laws.round field (.other 10) 1 (by simp [TType.OfField]) (by decide)
      fun s => (laws.i64 value fits).map _
  have fields := laws.struct struct [(_, _)] (List.forall_mem_singleton.mpr one) none
  rw [List.flatMap_singleton] at fields
  exact fields.bind_nil (yields_pure value)

end ThriftAsio
