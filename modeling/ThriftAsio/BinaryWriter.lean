import ThriftAsio.BinaryProtocol
import ThriftAsio.Messages

/-! The readers of `TBinaryProtocol` read back what its writers have written, and what is accepted
stays so when more follows. -/

namespace ThriftAsio.BinaryProtocol
open Decoder

theorem writeInt_natCast (k n : Nat) : writeInt k n = toBigEndian k n := by
  rw [writeInt, ← Int.natCast_emod, Int.toNat_natCast, toBigEndian_mod]

theorem yields_readAll (str : Bytes) : (readAll str.length).Yields str (.ok str) := by
  intro rest
  simp [out, readAll, Except.map]

theorem bmod_writeInt {k : Nat} {n : Int} (low : -((256 ^ k : Nat) : Int) ≤ n * 2)
    (high : n * 2 < (256 ^ k : Nat)) : Int.bmod (bigEndian (writeInt k n)) (256 ^ k) = n := by
  have positive : 0 < 256 ^ k := Nat.pow_pos (by decide)
  have nonneg : 0 ≤ n % ((256 ^ k : Nat) : Int) := Int.emod_nonneg n (by omega)
  have bound : n % ((256 ^ k : Nat) : Int) < (256 ^ k : Nat) :=
    Int.emod_lt_of_pos n (by omega)
  have small : (n % ((256 ^ k : Nat) : Int)).toNat < 256 ^ k := by omega
  rw [writeInt, bigEndian_toBigEndian small, Int.toNat_of_nonneg nonneg, Int.emod_bmod,
    Int.bmod_eq_of_le_mul_two low high]

theorem yields_readInt {k : Nat} {n : Int} (low : -((256 ^ k : Nat) : Int) ≤ n * 2)
    (high : n * 2 < (256 ^ k : Nat)) :
    (do return Int.bmod (bigEndian (← readAll k)) (256 ^ k) : Reader Int).Yields
      (writeInt k n) (.ok n) := by
  have read := yields_readAll (writeInt k n)
  rw [writeInt, length_toBigEndian, ← writeInt] at read
  have whole := read.map fun bytes => Int.bmod (bigEndian bytes) (256 ^ k)
  rwa [bmod_writeInt low high] at whole

theorem yields_readI32 {n : Int} (fits : IsI32 n) : readI32.Yields (writeInt 4 n) (.ok n) := by
  obtain ⟨low, high⟩ := fits
  exact yields_readInt (by omega) (by omega)

theorem yields_readString {str : Bytes} (fits : SizeFits str) :
    readString.Yields (writeString str) (.ok str) := by
  have size : IsI32 str.length := by
    rw [SizeFits] at fits
    exact ⟨by omega, by omega⟩
  refine (yields_readI32 size).bind ?_
  rw [readStringBody, if_neg (by omega), Int.toNat_natCast]
  exact yields_readAll str

theorem yields_begin {name : Bytes} {seqid : Int} (size : SizeFits name) (fits : IsI32 seqid) :
    begin.Yields (writer.writeMessageBegin name .oneway seqid) (.ok (some (name, seqid))) := by
  have version : IsI32 (0x80010004 - 2 ^ 32) := by decide
  have same : writeInt 4 (0x80010000 + messageTypeCode .oneway) =
      writeInt 4 (0x80010004 - 2 ^ 32) := by decide
  have head : readMessageBegin.Yields (writer.writeMessageBegin name .oneway seqid)
      (.ok (name, 4, seqid)) := by
    change readMessageBegin.Yields (writeInt 4 (0x80010000 + messageTypeCode .oneway) ++
      writeString name ++ writeInt 4 seqid) _
    rw [same, List.append_assoc]
    refine (yields_readI32 version).bind ?_
    rw [if_neg (by decide), if_pos (by decide)]
    exact (yields_readString size).bind ((yields_readI32 fits).map _)
  exact head.bind_nil (yields_pure _)

theorem ttype_typeCode {ftype : TType} (kind : ftype.OfField) : ttype (typeCode ftype) = ftype := by
  cases ftype with
  | stop => exact kind.elim
  | other code =>
    simp only [TType.OfField, List.mem_cons, List.not_mem_nil, or_false, not_or] at kind
    simp [ttype, typeCode, kind]
  | _ => rfl

theorem yields_readFieldBegin {ftype : TType} {fid : Int} (kind : ftype.OfField)
    (fits : IsI16 fid) :
    readFieldBegin.Yields (typeCode ftype :: writeInt 2 fid) (ftype, fid) := by
  intro rest
  obtain ⟨low, high⟩ := fits
  have two : (writeInt 2 fid).length = 2 := length_toBigEndian 2 _
  have id : Int.bmod (bigEndian (writeInt 2 fid)) (256 ^ 2) = fid :=
    bmod_writeInt (by omega) (by omega)
  have notStop : ftype ≠ .stop := by
    rintro rfl
    exact kind
  simp only [Eater.out, readFieldBegin, List.cons_append, ttype_typeCode kind, notStop, if_false,
    List.length_append, two, Nat.le_add_right, if_true, Except.map, List.take_left' two,
    List.drop_left' two]
  exact congrArg (fun n => Except.ok ((ftype, n), rest)) id

theorem library_readsBack : library.ReadsBack writer where
  messageBegin _ _ size fits := yields_begin size fits
  messageEnd := yields_pure ()
  readEnd := yields_pure ()
  structBegin _ := yields_pure ()
  structEnd := yields_pure ()
  fieldBegin _ _ _ kind fits := yields_readFieldBegin kind fits
  fieldEnd := yields_pure ()
  fieldStop := ⟨0, fun _ => rfl⟩
  string _ size := yields_readString size
  binary _ size := yields_readString size
  i32 _ fits := yields_readI32 fits
  double bits := by
    have read := yields_readAll (toBigEndian 8 bits.toNat)
    rw [length_toBigEndian] at read
    have whole := read.map fun bytes => UInt64.ofNat (bigEndian bytes)
    rwa [bigEndian_toBigEndian bits.toNat_lt, UInt64.ofNat_toNat] at whole

theorem clientLibrary_readsBack : clientLibrary.ReadsBack writer where
  messageBegin := library_readsBack.messageBegin
  messageEnd := library_readsBack.messageEnd
  readEnd := library_readsBack.readEnd
  structBegin := library_readsBack.structBegin
  structEnd := library_readsBack.structEnd
  fieldBegin := library_readsBack.fieldBegin
  fieldEnd := library_readsBack.fieldEnd
  fieldStop := library_readsBack.fieldStop
  string := library_readsBack.string
  binary := library_readsBack.binary
  i32 := library_readsBack.i32
  double := library_readsBack.double
  i64 _ fits := by
    obtain ⟨low, high⟩ := fits
    exact yields_readInt (by omega) (by omega)

theorem extends_readAll (n : Nat) : (readAll n).Extends := by
  intro input value rest accepted more
  simp only [out, readAll] at accepted ⊢
  split at accepted
  · rename_i enough
    obtain ⟨rfl, rfl⟩ := Prod.mk.inj (Except.ok.inj accepted)
    have longer : n ≤ (input ++ more).length := by
      rw [List.length_append]
      omega
    rw [if_pos longer]
    simp only [Except.map, List.take_append_of_le_length enough,
      List.drop_append_of_le_length enough]
  · cases accepted

theorem extends_readI32 : readI32.Extends := (extends_readAll 4).bind fun _ => extends_pure _

theorem extends_readStringBody (size : Int) : (readStringBody size).Extends := by
  unfold readStringBody
  split
  · exact extends_fail _
  · exact extends_readAll _

theorem extends_readString : readString.Extends := extends_readI32.bind extends_readStringBody

theorem extends_begin : begin.Extends := by
  refine Extends.bind ?_ fun _ => extends_pure _
  refine extends_readI32.bind fun sz => ?_
  split
  · exact (extends_readStringBody sz).bind fun _ => ((extends_readAll 1).bind fun _ =>
      extends_pure _).bind fun _ => extends_readI32.bind fun _ => extends_pure _
  · split
    · exact extends_readString.bind fun _ => extends_readI32.bind fun _ => extends_pure _
    · exact extends_fail _

theorem extends_readFieldBegin : readFieldBegin.Extends := by
  intro input value rest accepted more
  cases input with
  | nil => cases accepted
  | cons code left =>
    simp only [Eater.out, readFieldBegin, List.cons_append] at accepted ⊢
    split at accepted
    · rename_i stop
      obtain ⟨rfl, rfl⟩ := Prod.mk.inj (Except.ok.inj accepted)
      rw [if_pos stop]
      rfl
    · rename_i field
      split at accepted
      · rename_i enough
        obtain ⟨rfl, rfl⟩ := Prod.mk.inj (Except.ok.inj accepted)
        have longer : 2 ≤ (left ++ more).length := by
          rw [List.length_append]
          omega
        rw [if_neg field, if_pos longer]
        simp only [Except.map, List.take_append_of_le_length enough,
          List.drop_append_of_le_length enough]
      · cases accepted

theorem extends_skip (ftype : TType) : (skip ftype).Extends := by
  unfold skip
  split
  · exact extends_pure _
  · exact (extends_readAll 8).bind fun _ => extends_pure _
  · exact (extends_readAll 4).bind fun _ => extends_pure _
  · exact extends_readString.bind fun _ => extends_pure _
  · exact extends_fail _
  · split
    · exact (extends_readAll 1).bind fun _ => extends_pure _
    · split
      · exact (extends_readAll 2).bind fun _ => extends_pure _
      · split
        · exact (extends_readAll 8).bind fun _ => extends_pure _
        · split
          · exact extends_fail _
          · exact extends_pure _

theorem extends_library : library.Extends where
  begin := extends_begin
  readMessageEnd := extends_pure ()
  readEnd := extends_pure ()
  readStructBegin := extends_pure ()
  readStructEnd := extends_pure ()
  readFieldBegin := extends_readFieldBegin
  readFieldEnd := extends_pure ()
  readString := extends_readString
  readBinary := extends_readString
  readI32 := extends_readI32
  readDouble := (extends_readAll 8).bind fun _ => extends_pure _
  skip := extends_skip

theorem extends_clientLibrary : clientLibrary.Extends where
  begin := extends_begin
  readMessageEnd := extends_pure ()
  readEnd := extends_pure ()
  readStructBegin := extends_pure ()
  readStructEnd := extends_pure ()
  readFieldBegin := extends_readFieldBegin
  readFieldEnd := extends_pure ()
  readString := extends_readString
  readBinary := extends_readString
  readI32 := extends_readI32
  readDouble := (extends_readAll 8).bind fun _ => extends_pure _
  readI64 := (extends_readAll 8).bind fun _ => extends_pure _
  skip ftype := by
    change (if ftype = .struct then skipStruct else skip ftype).Extends
    split
    · exact Extends.loop extends_readFieldBegin (fun _ f => extends_skip f.1) ()
    · exact extends_skip ftype

end ThriftAsio.BinaryProtocol
