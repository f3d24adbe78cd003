import NessieStore.Lib.Source
import NessieStore.Reapi.Names

/-!
# Reading a blob over ByteStream

`ByteStreamSvc::read` (`nessie-reapi`, `services/bytestream.rs`): the name is parsed, the blob's
reader is moved to the offset by `io::copy` into a sink, and then pumped into a channel, chunk by
chunk, until the limit or the end. A client that goes away has received a front of these messages.

How the store answers is a parameter, and so is what its reader does, call by call (`Source`). The
counter of what remains is a `u64` that wraps; that it never goes below zero is part of the proof
(`pump_smooth`), so a build that panics on overflow behaves the same.
-/

set_option autoImplicit false

namespace NessieStore.Reapi

open Lib

/-- `std::io::Error`. -/
structure IoError where
  interrupted : Bool
  text : String
deriving DecidableEq

/-- A blob's reader. -/
abbrev BlobReader := Source UInt8 IoError

/-- `bs::ReadRequest`. -/
structure ReadRequest where
  resourceName : Text
  readOffset : Int64
  readLimit : Int64

/-- `CHUNK`. -/
def chunkSize : Nat := 64 * 1024

/-- The buffer of `io::copy`. -/
def copyBuffer : Nat := 8 * 1024

/-- The length of the next call: what remains, and at most a chunk. -/
def nextCap (remaining : Option UInt64) : Nat :=
  match remaining with
  | none => chunkSize
  | some r => min r.toNat chunkSize

/-- The loop: what is sent. -/
def pump (remaining : Option UInt64) (reader : BlobReader) : List (Except Status Bytes) :=
  if nextCap remaining = 0 then []
  else
    match _hread : reader.read (nextCap remaining) with
    | (.ok chunk, reader') =>
      if _hchunk : chunk = [] then []
      else .ok chunk :: pump (remaining.map (· - UInt64.ofNat chunk.length)) reader'
    | (.error e, _) => [.error (.new .internal ("reading blob: " ++ e.text))]
termination_by reader.left
decreasing_by exact Source.left_of_ok _hread _hchunk

/-- The blocking task, once the store has given a reader. -/
def sendBlob (offset : UInt64) (limit : Option UInt64) (reader : BlobReader) :
    List (Except Status Bytes) :=
  pump limit
    (if 0 < offset then reader.skip IoError.interrupted copyBuffer offset.toNat else reader)

variable (debug : Text → String) (get : NessieStore.Digest → Except BackendError BlobReader)

/-- `read`: a refusal, or the messages of the stream. -/
def byteStreamRead (req : ReadRequest) : Except Status (List (Except Status Bytes)) := do
  match ← ResourceName.parse debug req.resourceName with
  | .write .. => .error (.bad "read resource must be a blobs/ path")
  | .read _ sha256 size => do
    let native ← nativeFor debug sha256 size
    let offset := (max req.readOffset 0).toUInt64
    let limit := if 0 < req.readLimit then some req.readLimit.toUInt64 else none
    match get native with
    | .error e => .ok [.error (.backend e)]
    | .ok reader => .ok (sendBlob offset limit reader)

/-! ## What is sent -/

/-- The part of a list that a limit leaves. -/
def upTo (remaining : Option UInt64) (b : Bytes) : Bytes :=
  match remaining with
  | none => b
  | some r => b.take r.toNat

/-- A chunk within the limit leaves the rest of the limit for the rest. -/
theorem upTo_append {remaining : Option UInt64} {chunk rest : Bytes}
    (h : chunk.length ≤ nextCap remaining) :
    upTo remaining (chunk ++ rest) =
      chunk ++ upTo (remaining.map (· - UInt64.ofNat chunk.length)) rest := by
  cases remaining with
  | none => rfl
  | some r =>
    have hle : chunk.length ≤ r.toNat := Nat.le_trans h (Nat.min_le_left _ _)
    have hlen : (UInt64.ofNat chunk.length).toNat = chunk.length :=
      UInt64.toNat_ofNat_of_lt' (Nat.lt_of_le_of_lt hle r.toNat_lt)
    have hsub : (r - UInt64.ofNat chunk.length).toNat = r.toNat - chunk.length := by
      rw [UInt64.toNat_sub_of_le, hlen]
      rw [UInt64.le_iff_toNat_le, hlen]
      exact hle
    rw [upTo, Option.map_some, upTo, hsub, List.take_append, List.take_of_length_le hle]

/-- By induction on the calls: a reader that does not fail is sent up to the limit. -/
theorem pump_smooth {remaining : Option UInt64} {reader : BlobReader} (h : reader.Smooth) :
    ∃ chunks : List Bytes, pump remaining reader = chunks.map .ok ∧
      chunks.flatten = upTo remaining reader.rest ∧
      ∀ chunk ∈ chunks, chunk ≠ [] ∧ chunk.length ≤ chunkSize := by
  fun_induction pump remaining reader with
  | case1 remaining reader hcap =>
    refine ⟨[], rfl, ?_, List.forall_mem_nil _⟩
    cases remaining with
    | none => cases hcap
    | some r =>
      have hr : r.toNat = 0 := by
        simp only [nextCap, chunkSize] at hcap
        omega
      rw [upTo, hr, List.take_zero]
      rfl
  | case2 remaining reader hcap reader' hread =>
    have hend := (Source.gave_of_read (Nat.pos_of_ne_zero hcap) hread).atEnd rfl
    refine ⟨[], rfl, ?_, List.forall_mem_nil _⟩
    rw [hend]
    cases remaining <;> simp [upTo]
  | case3 remaining reader hcap chunk reader' hread hchunk ih =>
    have hgave := Source.gave_of_read (Nat.pos_of_ne_zero hcap) hread
    obtain ⟨chunks, hpump, hflat, hchunks⟩ := ih (hgave.smooth h)
    have hbound : nextCap remaining ≤ chunkSize := by
      cases remaining with
      | none => exact Nat.le_refl _
      | some r => exact Nat.min_le_right _ _
    refine ⟨chunk :: chunks, by rw [hpump]; rfl, ?_, ?_⟩
    · rw [List.flatten_cons, hflat, hgave.split, upTo_append hgave.bound]
    · exact List.forall_mem_cons.mpr ⟨⟨hchunk, Nat.le_trans hgave.bound hbound⟩, hchunks⟩
  | case4 remaining reader hcap e reader' hread =>
    obtain ⟨chunk, reader'', hok⟩ := h.read (nextCap remaining)
    rw [hread] at hok
    cases hok

theorem sendBlob_smooth (offset : UInt64) (limit : Option UInt64) {reader : BlobReader}
    (h : reader.Smooth) :
    ∃ chunks : List Bytes, sendBlob offset limit reader = chunks.map .ok ∧
      chunks.flatten = upTo limit (reader.rest.drop offset.toNat) ∧
      ∀ chunk ∈ chunks, chunk ≠ [] ∧ chunk.length ≤ chunkSize := by
  unfold sendBlob
  split
  · have hskip := @Source.skip_smooth _ _ reader IoError.interrupted copyBuffer offset.toNat
      (by decide) h
    rw [← hskip.1]
    exact pump_smooth hskip.2
  · next hoffset =>
    have hzero : offset.toNat = 0 := by
      rw [UInt64.lt_iff_toNat_lt] at hoffset
      exact Nat.eq_zero_of_not_pos hoffset
    rw [hzero, List.drop_zero]
    exact pump_smooth h

/-- The slice of a blob from `o` on, of `l` bytes at most; zero is no limit. -/
def slice (b : Bytes) (o l : Nat) : Bytes :=
  (b.take (if l = 0 then b.length else min (o + l) b.length)).drop (min o b.length)

theorem slice_eq (b : Bytes) (o l : Nat) :
    slice b o l = if l = 0 then b.drop o else (b.drop o).take l := by
  have hdrop : b.drop (min o b.length) = b.drop o := by
    rw [List.drop_eq_drop_iff, Nat.min_assoc, Nat.min_self]
  unfold slice
  split
  · rw [List.take_length, hdrop]
  · rw [List.drop_take, hdrop, List.take_eq_take_iff, List.length_drop]
    omega

/-- A held blob is read as the slice that was asked for, however its reader cuts it up: in chunks that
are not empty and of at most 64 KiB, and without an error. -/
theorem byte_stream_read_exact (req : ReadRequest) {inst : Text} {size : UInt64}
    {d : NessieStore.Digest} (hd : d.algo = .sha256)
    (hname : ResourceName.parse debug req.resourceName = .ok (.read inst (Hex.encode d.bytes) size))
    {reader : BlobReader} (hheld : get d = .ok reader) (hsmooth : reader.Smooth)
    (hoffset : 0 ≤ req.readOffset) (hlimit : 0 ≤ req.readLimit) :
    ∃ chunks : List Bytes, byteStreamRead debug get req = .ok (chunks.map .ok) ∧
      chunks.flatten = slice reader.rest req.readOffset.toInt.toNat req.readLimit.toInt.toNat ∧
      ∀ chunk ∈ chunks, chunk ≠ [] ∧ chunk.length ≤ 64 * 1024 := by
  have hnative : nativeFor debug (Hex.encode d.bytes) size = .ok d :=
    toNative_eq_ok_iff.mpr ⟨isHash_encode hd, hd, rfl⟩
  have hmax : max req.readOffset 0 = req.readOffset := by
    show (if req.readOffset ≤ 0 then 0 else req.readOffset) = req.readOffset
    split
    · next hle => exact Int64.le_antisymm hoffset hle
    · rfl
  obtain ⟨chunks, hsend, hflat, hchunks⟩ := sendBlob_smooth req.readOffset.toUInt64
    (if 0 < req.readLimit then some req.readLimit.toUInt64 else none) hsmooth
  refine ⟨chunks, ?_, ?_, hchunks⟩
  · simp only [byteStreamRead, hname, hnative, hheld, hmax, hsend, bind, Except.bind]
  · rw [hflat, slice_eq, Int64.toNat_toUInt64_of_le hoffset]
    by_cases hzero : 0 < req.readLimit
    · have hpos : ¬ req.readLimit.toInt.toNat = 0 := by
        rw [Int64.lt_iff_toInt_lt, Int64.toInt_zero] at hzero
        omega
      rw [if_pos hzero, if_neg hpos, upTo, Int64.toNat_toUInt64_of_le hlimit]
      rfl
    · have hnone : req.readLimit.toInt.toNat = 0 := by
        rw [Int64.lt_iff_toInt_lt, Int64.toInt_zero] at hzero
        omega
      rw [if_neg hzero, if_pos hnone]
      rfl

/-- Three bytes, read one by one, from the second on, and one of them only. -/
theorem byte_stream_read_exact_middle :
    let hash : Text := List.replicate 64 '0'
    let name : Text := ResourceName.join ["blobs".toList, hash, "3".toList]
    ∃ chunks : List Bytes,
      byteStreamRead (fun _ => "") (fun _ => .ok ⟨[1, 2, 3], [.ok 1, .ok 1, .ok 1]⟩) ⟨name, 1, 1⟩ =
        .ok (chunks.map .ok) ∧ chunks.flatten = [2] := by
  intro hash name
  let d : NessieStore.Digest := ⟨.sha256, List.replicate 32 0, rfl⟩
  have hsplit : name.splitOn '/' = [] ++ "blobs".toList :: hash :: "3".toList :: [] := by
    decide +kernel
  have hname : ResourceName.parse (fun _ => "") name = .ok (.read [] (Hex.encode d.bytes) 3) := by
    refine ResourceName.parse_eq_ok_iff.mpr (.read hsplit ?_ List.not_mem_nil ?_ ?_)
    all_goals decide +kernel
  have hsmooth : Source.Smooth (⟨[1, 2, 3], [.ok 1, .ok 1, .ok 1]⟩ : BlobReader) := by
    intro r hr
    simp only [List.mem_cons, List.not_mem_nil, or_false, or_self] at hr
    exact ⟨1, hr⟩
  obtain ⟨chunks, hread, hflat, -⟩ := byte_stream_read_exact (fun _ => "")
    (fun _ => .ok ⟨[1, 2, 3], [.ok 1, .ok 1, .ok 1]⟩) ⟨name, 1, 1⟩ (d := d) rfl hname rfl hsmooth
    (by decide) (by decide)
  exact ⟨chunks, hread, hflat⟩

end NessieStore.Reapi
