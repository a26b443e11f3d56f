import Mathlib.Data.List.Nodup
import ThriftAsio.BinaryWriter

/-! The format on the wire as a whole: the fields of a ship may come in any order and with unknown
ones between them, and a message is accepted whole or not at all. -/

namespace ThriftAsio
open Decoder

namespace ShipField

def isOther : ShipField → Bool
  | .other _ _ _ _ => true
  | _ => false

/-- The place of a field in `Ship::read`; those it skips have none. -/
def place : ShipField → Option Nat
  | .userId _ => some 1
  | .nickName _ => some 2
  | .shipType _ => some 3
  | .timeStamp _ => some 4
  | .shipId _ => some 5
  | .text _ => some 6
  | .picture _ => some 7
  | .animation _ => some 8
  | .loc _ => some 9
  | .action _ => some 10
  | .texId _ => some 11
  | .other _ _ _ _ => none

theorem set_comm {f g : ShipField} (apart : f.place ≠ g.place) (ship : Ship) :
    set (set ship f) g = set (set ship g) f := by
  cases f <;> cases g <;> first | rfl | exact absurd rfl apart

theorem set_other {f : ShipField} (other : f.isOther = true) (ship : Ship) : set ship f = ship := by
  cases f with
  | other name ftype fid value => rfl
  | _ => cases other

theorem foldl_filter_other (fields : List ShipField) (ship : Ship) :
    fields.foldl set ship = (fields.filter (!·.isOther)).foldl set ship := by
  induction fields generalizing ship with
  | nil => rfl
  | cons f fields ih =>
    cases other : f.isOther with
    | true => simp [other, set_other other, ih]
    | false => simp [other, ih]

theorem any_filter_other {p : ShipField → Bool} (silent : ∀ f, f.isOther = true → p f = false)
    (fields : List ShipField) : (fields.filter (!·.isOther)).any p = fields.any p := by
  induction fields with
  | nil => rfl
  | cons f fields ih =>
    cases other : f.isOther with
    | true => simp [other, silent f other, ih]
    | false => simp [other, ih]

end ShipField

namespace Ship

theorem place_fields (ship : Ship) : (ship.fields.map ShipField.place).Sublist
    ([some 1, some 2, some 3, some 4] ++ [some 5] ++ [some 6] ++ [some 7] ++ [some 8] ++
      [some 9] ++ [some 10] ++ [some 11]) := by
  have optional : ∀ {α : Type} (v : Option α) (f : α → ShipField) (k : Nat),
      (∀ x, (f x).place = some k) →
        ((v.toList.map f).map ShipField.place).Sublist [some k] := by
    intro α v f k at_k
    cases v with
    | none => exact List.nil_sublist _
    | some x =>
      rw [Option.toList_some, List.map_singleton, List.map_singleton, at_k x]
  simp only [fields, List.map_append]
  refine List.Sublist.append ?_ (optional _ _ 11 fun _ => rfl)
  refine List.Sublist.append ?_ (optional _ _ 10 fun _ => rfl)
  refine List.Sublist.append ?_ (optional _ _ 9 fun _ => rfl)
  refine List.Sublist.append ?_ (optional _ _ 8 fun _ => rfl)
  refine List.Sublist.append ?_ (optional _ _ 7 fun _ => rfl)
  refine List.Sublist.append ?_ (optional _ _ 6 fun _ => rfl)
  exact List.Sublist.append (List.Sublist.refl _) (optional _ _ 5 fun _ => rfl)

theorem fields_distinct (ship : Ship) {f g : ShipField} (hf : f ∈ ship.fields)
    (hg : g ∈ ship.fields) (same : f.place = g.place) : f = g := by
  have distinct := ship.place_fields.nodup (by decide)
  exact List.inj_on_of_nodup_map distinct hf hg same

theorem foldl_shuffled {ship : Ship} {fields : List ShipField}
    (sent : (fields.filter (!·.isOther)).Perm ship.fields) (old : Ship) :
    fields.foldl ShipField.set old = old.updatedBy ship := by
  rw [ShipField.foldl_filter_other, ← Ship.foldl_fields]
  refine sent.foldl_eq' (fun f hf g hg s => ?_) old
  by_cases same : f.place = g.place
  · rw [ship.fields_distinct (sent.subset hf) (sent.subset hg) same]
  · exact ShipField.set_comm same s

theorem complete_shuffled {ship : Ship} {fields : List ShipField}
    (sent : (fields.filter (!·.isOther)).Perm ship.fields) : ShipField.Complete fields := by
  have same : ∀ p : ShipField → Bool, (∀ f, f.isOther = true → p f = false) →
      fields.any p = ship.fields.any p := by
    intro p silent
    rw [← ShipField.any_filter_other silent, sent.any_eq]
  have required := ship.complete_fields
  unfold ShipField.Complete at required ⊢
  rw [same, same, same, same]
  · exact required
  all_goals intro f other; cases f <;> first | rfl | cases other

end Ship

/-- The fields of a ship are read in any order, with any fields between them that the library can
skip, and into any object, whose optional fields stay where the ship has none. Without one of the
required fields, or with it under another type, nothing is accepted. -/
theorem Thrift.readShip_any_order {T : Thrift} {W : OutputProtocol} (laws : T.ReadsBack W)
    (old : Ship) {fields : List ShipField} (fits : ∀ f ∈ fields, f.Fits T) (rest : Bytes) :
    (∀ ship : Ship, (fields.filter (!·.isOther)).Perm ship.fields →
      out (T.readShip old) (W.writeStruct "Ship" (fields.flatMap (ShipField.write W)) ++ rest) =
        .ok (old.updatedBy ship, rest)) ∧
      (¬ ShipField.Complete fields →
        out (T.readShip old) (W.writeStruct "Ship" (fields.flatMap (ShipField.write W)) ++
          rest) = .error .invalidData) := by
  have read := laws.readShip fits old rest
  refine ⟨fun ship sent => ?_, fun missing => ?_⟩
  · rw [read, if_pos (Ship.complete_shuffled sent), Ship.foldl_shuffled sent]
    rfl
  · rw [read, if_neg missing]
    rfl

def shuffledShip : List ShipField :=
  [.text [72], .userId [1], .shipType 16, .timeStamp 7, .other "mood" .string 12
    (BinaryProtocol.writeString [33]), .nickName [2]]

theorem Thrift.readShip_any_order_shuffled :
    (∀ f ∈ shuffledShip, f.Fits BinaryProtocol.library) ∧
      out (BinaryProtocol.library.readShip {})
        (BinaryProtocol.writer.writeStruct "Ship"
          (shuffledShip.flatMap (ShipField.write BinaryProtocol.writer)) ++ [9]) =
        .ok ((⟨[1], [2], 16, 7, none, some [72], none, none, none, none, none⟩ : Ship), [9]) := by
  have fits : ∀ f ∈ shuffledShip, f.Fits BinaryProtocol.library := by
    simp only [shuffledShip, List.forall_mem_cons]
    exact ⟨(by decide : SizeFits [72]), (by decide : SizeFits [1]), (by decide : IsI32 16),
      (by decide : IsI32 7), ⟨trivial, by decide, by decide,
        (BinaryProtocol.yields_readString (by decide)).map _⟩,
      (by decide : SizeFits [2]), fun _ none => absurd none List.not_mem_nil⟩
  exact ⟨fits, (Thrift.readShip_any_order BinaryProtocol.library_readsBack {} fits [9]).1
    ⟨[1], [2], 16, 7, none, some [72], none, none, none, none, none⟩ (by decide)⟩

theorem request_talkServerClient {T : Thrift} {W : OutputProtocol} (laws : T.ReadsBack W)
    {method : TalkServerIf} (fits : method.Fits) :
    T.request (W.talkServerClient method) = .ok method.request := by
  rw [Thrift.request, value_eq, (laws.request fits).out_eq]
  rfl

/-- The server reads what its client sends as the same call. Of a request that is cut off, wherever
that is, it cannot decode anything. -/
theorem Thrift.request_whole {T : Thrift} {W : OutputProtocol} (laws : T.ReadsBack W)
    (lib : T.Extends) {method : TalkServerIf} (fits : method.Fits) :
    T.request (W.talkServerClient method) = .ok method.request ∧
      ∀ part more, W.talkServerClient method = part ++ more → more ≠ [] → ¬ T.Decodes part := by
  refine ⟨request_talkServerClient laws fits, fun part more split missing => ?_⟩
  rintro ⟨r, decoded⟩
  obtain ⟨e, refused⟩ := lib.readRequest.refuses (laws.request fits) split missing
  rw [Thrift.request, value_eq, refused] at decoded
  cases decoded

theorem Thrift.request_whole_postShip :
    let W := BinaryProtocol.writer
    let ship : Ship := ⟨[1], [2], 58, 7, some 3, none, none, some [255, 0], none, none, none⟩
    BinaryProtocol.library.request (W.talkServerClient (.postShip [35] ship)) =
        .ok (.postShip [35] ship) ∧
      ¬ BinaryProtocol.library.Decodes ((W.talkServerClient (.postShip [35] ship)).dropLast) := by
  intro W ship
  have fits : TalkServerIf.Fits (.postShip [35] ship) :=
    ⟨by decide, by decide, by decide, by decide, by decide, by decide, by decide, by decide,
      by decide, by decide, by decide⟩
  obtain ⟨whole, cut⟩ := Thrift.request_whole BinaryProtocol.library_readsBack
    BinaryProtocol.extends_library fits
  have some : W.talkServerClient (.postShip [35] ship) ≠ [] := by decide +kernel
  exact ⟨whole, cut _ [_] (List.dropLast_append_getLast some).symm (by simp)⟩

section NotEmpty

variable {T : Thrift} {W : OutputProtocol}

theorem sendOneway_ne_nil (laws : T.ReadsBack W) (fname struct : String) (fields : Bytes) :
    W.sendOneway fname (W.writeStruct struct fields) ≠ [] := by
  simp [OutputProtocol.sendOneway, OutputProtocol.writeStruct, laws.fieldStop_ne_nil]

theorem talkServerClient_ne_nil (laws : T.ReadsBack W) (method : TalkServerIf) :
    W.talkServerClient method ≠ [] := by
  cases method <;> exact sendOneway_ne_nil laws _ _ _

theorem talkClientClient_ne_nil (laws : T.ReadsBack W) (method : TalkClientIf) :
    W.talkClientClient method ≠ [] := by
  cases method <;> exact sendOneway_ne_nil laws _ _ _

end NotEmpty

theorem whole_talkClientClient {T : ClientThrift} {W : OutputProtocol} (laws : T.ReadsBack W)
    {method : TalkClientIf} (fits : method.Fits) :
    T.Whole (W.talkClientClient method) (.call method) :=
  ⟨talkClientClient_ne_nil laws.toReadsBack method, rfl, (laws.incoming fits).out_eq⟩

/-- The client reads what the server's client objects send as the same call and nothing more, and
refuses every message that is cut off. -/
theorem ClientThrift.incoming_whole {T : ClientThrift} {W : OutputProtocol}
    (laws : T.ReadsBack W) (lib : T.Extends) {method : TalkClientIf} (fits : method.Fits) :
    T.Whole (W.talkClientClient method) (.call method) ∧
      ∀ part more, W.talkClientClient method = part ++ more → more ≠ [] →
        ∀ r, T.incoming part ≠ .ok r := by
  refine ⟨whole_talkClientClient laws fits, fun part more split missing r accepted => ?_⟩
  obtain ⟨e, refused⟩ := lib.readIncoming.refuses (laws.incoming fits) split missing
  exact absurd (refused.symm.trans accepted) (by simp)

theorem ClientThrift.incoming_whole_onSubscribe :
    let W := BinaryProtocol.writer
    BinaryProtocol.clientLibrary.Whole (W.talkClientClient (.onSubscribe (-2)))
      (.call (.onSubscribe (-2))) := by
  have fits : TalkClientIf.Fits (.onSubscribe (-2)) := (by decide : IsI64 (-2))
  exact (ClientThrift.incoming_whole BinaryProtocol.clientLibrary_readsBack
    BinaryProtocol.extends_clientLibrary fits).1

end ThriftAsio
