import Mathlib.Algebra.Group.Int.Defs
import Mathlib.Algebra.Group.Nat.Defs
import Mathlib.Data.List.Basic
import Mathlib.Data.List.Induction

/-! Length-prefixed framing over any elements. A frame is a header of fixed length and the
payload whose length the header gives. `parse` cuts a stream into its complete frames and what
is left; it may be done in pieces (`parse_append`) and inverts concatenation (`parse_flatten`). -/

namespace ThriftAsio

structure FrameFormat (β : Type*) where
  headerLength : Nat
  payloadLength : List β → Nat
  headerLength_pos : 0 < headerLength

namespace FrameFormat

variable {β : Type*} (F : FrameFormat β)

/-- The length of the frame that starts here, given that its header is complete. -/
def frameLength (bytes : List β) : Nat :=
  F.headerLength + F.payloadLength (bytes.take F.headerLength)

def Complete (bytes : List β) : Prop :=
  F.headerLength ≤ bytes.length ∧ F.frameLength bytes ≤ bytes.length

instance (bytes : List β) : Decidable (F.Complete bytes) := by
  unfold Complete; infer_instance

def IsFrame (frame : List β) : Prop :=
  F.headerLength ≤ frame.length ∧ F.frameLength frame = frame.length

def parse (bytes : List β) : List (List β) × List β :=
  if _h : F.Complete bytes then
    let next := parse (bytes.drop (F.frameLength bytes))
    (bytes.take (F.frameLength bytes) :: next.1, next.2)
  else ([], bytes)
termination_by bytes.length
decreasing_by
  have hpos := F.headerLength_pos
  obtain ⟨_, hframe⟩ := _h
  simp only [List.length_drop, frameLength] at *
  omega

variable {F}

theorem parse_complete {bytes : List β} (h : F.Complete bytes) :
    F.parse bytes =
      (bytes.take (F.frameLength bytes) :: (F.parse (bytes.drop (F.frameLength bytes))).1,
        (F.parse (bytes.drop (F.frameLength bytes))).2) := by
  rw [parse, dif_pos h]

theorem parse_incomplete {bytes : List β} (h : ¬ F.Complete bytes) :
    F.parse bytes = ([], bytes) := by
  rw [parse, dif_neg h]

@[simp] theorem parse_nil : F.parse ([] : List β) = ([], []) := by
  refine parse_incomplete fun hc => ?_
  have hpos := F.headerLength_pos
  have hlen := hc.1
  simp only [List.length_nil] at hlen
  omega

theorem frameLength_append {bytes : List β} (h : F.headerLength ≤ bytes.length)
    (more : List β) : F.frameLength (bytes ++ more) = F.frameLength bytes := by
  rw [frameLength, frameLength, List.take_append_of_le_length h]

theorem Complete.append {bytes : List β} (h : F.Complete bytes) (more : List β) :
    F.Complete (bytes ++ more) := by
  obtain ⟨hheader, hframe⟩ := h
  rw [Complete, frameLength_append hheader, List.length_append]
  omega

theorem IsFrame.complete {frame : List β} (h : F.IsFrame frame) (more : List β) :
    F.Complete (frame ++ more) :=
  Complete.append ⟨h.1, Nat.le_of_eq h.2⟩ more

theorem isFrame_append {header payload : List β} (size : header.length = F.headerLength)
    (length : F.payloadLength header = payload.length) : F.IsFrame (header ++ payload) := by
  refine ⟨by rw [List.length_append, size]; exact Nat.le_add_right _ _, ?_⟩
  rw [frameLength, List.take_left' size, length, List.length_append, size]

theorem parse_frame_append {frame : List β} (h : F.IsFrame frame) (more : List β) :
    F.parse (frame ++ more) = (frame :: (F.parse more).1, (F.parse more).2) := by
  rw [parse_complete (h.complete more), frameLength_append h.1, h.2, List.take_left,
    List.drop_left]

theorem IsFrame.append_inj {frame other more rest : List β} (h : F.IsFrame frame)
    (h' : F.IsFrame other) (same : frame ++ more = other ++ rest) : frame = other := by
  have cut := parse_frame_append h more
  rw [same, parse_frame_append h' rest] at cut
  exact (List.cons.inj (congrArg Prod.fst cut)).1.symm

theorem parse_flatten {frames : List (List β)} (h : ∀ f ∈ frames, F.IsFrame f)
    (rest : List β) :
    F.parse (frames.flatten ++ rest) = (frames ++ (F.parse rest).1, (F.parse rest).2) := by
  induction frames with
  | nil => rfl
  | cons frame frames ih =>
    rw [List.flatten_cons, List.append_assoc, parse_frame_append (h frame (by simp)),
      ih fun f hf => h f (by simp [hf])]
    rfl

theorem parse_append (bytes more : List β) :
    F.parse (bytes ++ more) =
      ((F.parse bytes).1 ++ (F.parse ((F.parse bytes).2 ++ more)).1,
        (F.parse ((F.parse bytes).2 ++ more)).2) := by
  induction bytes using FrameFormat.parse.induct F with
  | case1 bytes h ih =>
    rw [parse_complete (h.append more), parse_complete h, frameLength_append h.1,
      List.take_append_of_le_length h.2, List.drop_append_of_le_length h.2, ih]
    rfl
  | case2 bytes h =>
    rw [parse_incomplete h]
    rfl

theorem parse_join (bytes : List β) :
    (F.parse bytes).1.flatten ++ (F.parse bytes).2 = bytes := by
  induction bytes using FrameFormat.parse.induct F with
  | case1 bytes h ih =>
    rw [parse_complete h, List.flatten_cons, List.append_assoc, ih, List.take_append_drop]
  | case2 bytes h => rw [parse_incomplete h]; rfl

theorem parse_rest (bytes : List β) : ¬ F.Complete (F.parse bytes).2 := by
  induction bytes using FrameFormat.parse.induct F with
  | case1 bytes h ih => rwa [parse_complete h]
  | case2 bytes h => rwa [parse_incomplete h]

theorem frameLength_gt {bytes : List β} (part : ¬ F.Complete bytes) (more : List β) :
    bytes.length < F.frameLength (bytes ++ more) := by
  apply Nat.lt_of_not_le
  intro short
  have header : F.headerLength ≤ bytes.length := Nat.le_trans (Nat.le_add_right _ _) short
  refine part ⟨header, ?_⟩
  rw [← frameLength_append header more]
  exact short

theorem frames_prefix {frames all : List (List β)} (hf : ∀ f ∈ frames, F.IsFrame f)
    (ha : ∀ f ∈ all, F.IsFrame f) {rest : List β}
    (h : frames.flatten ++ rest <+: all.flatten) : frames <+: all := by
  obtain ⟨more, hmore⟩ := h
  have whole := parse_flatten ha ([] : List β)
  rw [List.append_nil, ← hmore, List.append_assoc, parse_flatten hf] at whole
  rw [parse_nil, List.append_nil] at whole
  exact ⟨_, congrArg Prod.fst whole⟩

end FrameFormat

def bigEndian (bytes : List UInt8) : Nat := bytes.foldl (fun n b => n * 256 + b.toNat) 0

def toBigEndian : Nat → Nat → List UInt8
  | 0, _ => []
  | k + 1, n => toBigEndian k (n / 256) ++ [UInt8.ofNat n]

@[simp] theorem length_toBigEndian (k n : Nat) : (toBigEndian k n).length = k := by
  induction k generalizing n with
  | zero => rfl
  | succ k ih => simp [toBigEndian, ih]

theorem toBigEndian_mod (k n : Nat) : toBigEndian k (n % 256 ^ k) = toBigEndian k n := by
  induction k generalizing n with
  | zero => rfl
  | succ k ih =>
    have last : UInt8.ofNat (n % 256 ^ (k + 1)) = UInt8.ofNat n := by
      apply UInt8.toNat_inj.mp
      rw [UInt8.toNat_ofNat', UInt8.toNat_ofNat', Nat.pow_succ]
      exact Nat.mod_mul_left_mod n _ 256
    rw [toBigEndian, toBigEndian, last, Nat.pow_succ, Nat.mod_mul_left_div_self, ih]

theorem bigEndian_append (bytes : List UInt8) (b : UInt8) :
    bigEndian (bytes ++ [b]) = bigEndian bytes * 256 + b.toNat := by
  simp [bigEndian, List.foldl_append]

theorem bigEndian_toBigEndian {k n : Nat} (h : n < 256 ^ k) : bigEndian (toBigEndian k n) = n := by
  induction k generalizing n with
  | zero =>
    have zero : n = 0 := by simpa using h
    rw [zero]
    rfl
  | succ k ih =>
    have shorter : n / 256 < 256 ^ k := by
      rw [Nat.pow_succ] at h
      exact Nat.div_lt_of_lt_mul (by omega)
    rw [toBigEndian, bigEndian_append, ih shorter, UInt8.toNat_ofNat']
    omega

theorem bigEndian_lt (bytes : List UInt8) : bigEndian bytes < 256 ^ bytes.length := by
  induction bytes using List.reverseRecOn with
  | nil => simp [bigEndian]
  | append_singleton bytes b ih =>
    have last := b.toNat_lt
    rw [bigEndian_append, List.length_append, List.length_singleton, Nat.pow_succ]
    omega

theorem toBigEndian_bigEndian (bytes : List UInt8) :
    toBigEndian bytes.length (bigEndian bytes) = bytes := by
  induction bytes using List.reverseRecOn with
  | nil => rfl
  | append_singleton bytes b ih =>
    have last := b.toNat_lt
    have front : (bigEndian bytes * 256 + b.toNat) / 256 = bigEndian bytes := by omega
    have back : UInt8.ofNat (bigEndian bytes * 256 + b.toNat) = b := by
      apply UInt8.toNat_inj.mp
      rw [UInt8.toNat_ofNat']
      omega
    rw [bigEndian_append, List.length_append, List.length_singleton, toBigEndian, front, back, ih]

/-- Frames with the length of the payload in front, as four bytes. -/
def sizedFrames : FrameFormat UInt8 := ⟨4, bigEndian, by decide⟩

def encodeFrame (payload : List UInt8) : List UInt8 := toBigEndian 4 payload.length ++ payload

def encodeFrames (payloads : List (List UInt8)) : List UInt8 := (payloads.map encodeFrame).flatten

theorem encodeFrames_concat (payloads : List (List UInt8)) (payload : List UInt8) :
    encodeFrames (payloads ++ [payload]) = encodeFrames payloads ++ encodeFrame payload := by
  simp [encodeFrames]

theorem isFrame_encodeFrame {payload : List UInt8} (h : payload.length < 2 ^ 32) :
    sizedFrames.IsFrame (encodeFrame payload) :=
  FrameFormat.isFrame_append (length_toBigEndian 4 _) (bigEndian_toBigEndian (by simpa using h))

theorem drop_encodeFrame (payload : List UInt8) : (encodeFrame payload).drop 4 = payload :=
  List.drop_left' (length_toBigEndian 4 _)

theorem map_drop_encodeFrame (payloads : List (List UInt8)) :
    (payloads.map encodeFrame).map (List.drop 4) = payloads := by
  simp [Function.comp_def, drop_encodeFrame]

theorem isFrame_of_mem {payloads : List (List UInt8)} (h : ∀ f ∈ payloads, f.length < 2 ^ 32) :
    ∀ f ∈ payloads.map encodeFrame, sizedFrames.IsFrame f := by
  intro f hf
  obtain ⟨payload, mem, rfl⟩ := List.mem_map.mp hf
  exact isFrame_encodeFrame (h payload mem)

theorem parse_encodeFrames {payloads : List (List UInt8)} (h : ∀ f ∈ payloads, f.length < 2 ^ 32)
    {rest : List UInt8} (part : ¬ sizedFrames.Complete rest) :
    (sizedFrames.parse (encodeFrames payloads ++ rest)).1.map (List.drop 4) = payloads := by
  rw [encodeFrames, FrameFormat.parse_flatten (isFrame_of_mem h), FrameFormat.parse_incomplete part,
    List.append_nil, map_drop_encodeFrame]

theorem payloads_prefix {payloads all : List (List UInt8)}
    (hp : ∀ f ∈ payloads, f.length < 2 ^ 32) (ha : ∀ f ∈ all, f.length < 2 ^ 32)
    {rest : List UInt8} (h : encodeFrames payloads ++ rest <+: encodeFrames all) :
    payloads <+: all := by
  have whole := FrameFormat.frames_prefix (isFrame_of_mem hp) (isFrame_of_mem ha) h
  have dropped := whole.map (List.drop 4)
  rwa [map_drop_encodeFrame, map_drop_encodeFrame] at dropped

theorem encodeFrame_of_complete {bytes : List UInt8} (whole : sizedFrames.Complete bytes) :
    ∃ payload : List UInt8, payload.length < 2 ^ 32 ∧
      encodeFrame payload = bytes.take (sizedFrames.frameLength bytes) := by
  obtain ⟨header, fits⟩ := whole
  change 4 ≤ bytes.length at header
  let payload := (bytes.take (sizedFrames.frameLength bytes)).drop 4
  have size : sizedFrames.frameLength bytes = 4 + bigEndian (bytes.take 4) := rfl
  have length : payload.length = bigEndian (bytes.take 4) := by
    rw [List.length_drop, List.length_take_of_le fits, size, Nat.add_sub_cancel_left]
  have four : (bytes.take 4).length = 4 := List.length_take_of_le header
  have bound := bigEndian_lt (bytes.take 4)
  have again := toBigEndian_bigEndian (bytes.take 4)
  rw [four] at bound again
  have front : (bytes.take (sizedFrames.frameLength bytes)).take 4 = bytes.take 4 := by
    rw [List.take_take, Nat.min_eq_left (by omega)]
  refine ⟨payload, length ▸ bound, ?_⟩
  rw [encodeFrame, length, again, ← front]
  exact List.take_append_drop 4 _

theorem encodeFrame_of_part {bytes : List UInt8} (part : ¬ sizedFrames.Complete bytes) :
    ∃ payload : List UInt8, payload.length < 2 ^ 32 ∧ bytes <+: encodeFrame payload := by
  let padded := bytes ++ List.replicate 4 0
  let n := bigEndian (padded.take 4)
  let payload := (padded.drop 4 ++ List.replicate n 0).take n
  have four : (padded.take 4).length = 4 := List.length_take_of_le (by simp [padded])
  have bound := bigEndian_lt (padded.take 4)
  have again := toBigEndian_bigEndian (padded.take 4)
  rw [four] at bound again
  have length : payload.length = n := List.length_take_of_le (by simp)
  have frame : encodeFrame payload = (padded ++ List.replicate n 0).take (4 + n) := by
    have enough : 4 ≤ padded.length := by simp [padded]
    rw [encodeFrame, length, again, List.take_add, List.take_append_of_le_length enough,
      List.drop_append_of_le_length enough]
  have short : bytes.length ≤ 4 + n := by
    by_contra longer
    have header : 4 ≤ bytes.length := by omega
    have same : padded.take 4 = bytes.take 4 := List.take_append_of_le_length header
    refine part ⟨header, ?_⟩
    change 4 + bigEndian (bytes.take 4) ≤ bytes.length
    rw [← same]
    exact Nat.le_of_lt (Nat.lt_of_not_le longer)
  refine ⟨payload, by rwa [length], ?_⟩
  rw [frame, List.prefix_take_iff, List.append_assoc]
  exact ⟨List.prefix_append _ _, short⟩

theorem exists_encodeFrames_begins (bytes : List UInt8) :
    ∃ payloads : List (List UInt8), (∀ f ∈ payloads, f.length < 2 ^ 32) ∧
      bytes <+: encodeFrames payloads := by
  induction bytes using FrameFormat.parse.induct sizedFrames with
  | case1 bytes whole ih =>
    obtain ⟨payloads, small, begins⟩ := ih
    obtain ⟨payload, fits, frame⟩ := encodeFrame_of_complete whole
    refine ⟨payload :: payloads, List.forall_mem_cons.mpr ⟨fits, small⟩, ?_⟩
    rw [encodeFrames, List.map_cons, List.flatten_cons, frame, ← encodeFrames]
    conv_lhs => rw [← List.take_append_drop (sizedFrames.frameLength bytes) bytes]
    exact (List.prefix_append_right_inj _).mpr begins
  | case2 bytes part =>
    obtain ⟨payload, fits, begins⟩ := encodeFrame_of_part part
    refine ⟨[payload], by simpa using fits, ?_⟩
    rwa [encodeFrames, List.map_singleton, List.flatten_singleton]

end ThriftAsio
