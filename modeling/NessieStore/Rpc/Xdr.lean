import NessieStore.Core.Cas
import NessieStore.Lib.Codec

/-!
# External data representation

The trait `XDR` of the NFS server (`nessie-nfsserve`, `xdr.rs`): how the fields of its messages are
written, and how they are read from a message whose bytes end somewhere. A structure is its fields in
order (`xdr_struct!`), an enumeration is its number (`xdr_enum_serde!`), and a union over a flag is an
`Option` (`xdr_bool_union!`).

Reading is laxer than writing: any number but zero is a true flag, and the padding behind opaque bytes
is skipped without a look. Writing opaque bytes asserts that their length is below `u32::MAX`, which is
what `Fits` asks of them.
-/

set_option autoImplicit false

namespace NessieStore.Rpc

open Lib

/-- The two ways in which reading fails. -/
inductive XdrError
  | unexpectedEof
  | invalidData (message : String)
deriving DecidableEq

class Xdr (α : Type) where
  codec : Codec XdrError α

variable {α β : Type}

def serialize [Xdr α] (a : α) : Bytes := (Xdr.codec : Codec XdrError α).encode a

def deserialize [Xdr α] : Parse XdrError α := (Xdr.codec : Codec XdrError α).decode

def Fits [Xdr α] (a : α) : Prop := (Xdr.codec : Codec XdrError α).Fits a

theorem deserialize_serialize [Xdr α] {a : α} (h : Fits a) (rest : Bytes) :
    deserialize (serialize a ++ rest) = .ok (a, rest) :=
  Xdr.codec.decode_encode h rest

theorem deserialize_whole [Xdr α] {a : α} (h : Fits a) :
    deserialize (serialize a) = .ok (a, []) := by
  have hread := deserialize_serialize h []
  rwa [List.append_nil] at hread

theorem deserialize_bind [Xdr α] {a : α} (h : Fits a) (f : α → Parse XdrError β) (rest : Bytes) :
    ((deserialize : Parse XdrError α) >>= f) (serialize a ++ rest) = f a rest :=
  Xdr.codec.decode_bind h f rest

/-! ## Numbers and flags -/

instance : Xdr UInt32 where
  codec := (beCodec .unexpectedEof 4).map UInt32.toNat UInt32.ofNat fun _ => UInt32.ofNat_toNat

instance : Xdr UInt64 where
  codec := (beCodec .unexpectedEof 8).map UInt64.toNat UInt64.ofNat fun _ => UInt64.ofNat_toNat

@[simp] theorem fits_u32 (n : UInt32) : Fits n := n.toNat_lt

@[simp] theorem fits_u64 (n : UInt64) : Fits n := n.toNat_lt

@[simp] theorem length_serialize_u32 (n : UInt32) : (serialize n).length = 4 := length_beBytes 4 _

@[simp] theorem length_serialize_u64 (n : UInt64) : (serialize n).length = 8 := length_beBytes 8 _

def boolCodec : Codec XdrError Bool where
  encode b := serialize (if b then (1 : UInt32) else 0)
  decode := do
    let val : UInt32 ← deserialize
    return decide (val > 0)
  Fits _ := True
  decode_encode := by
    intro b _ rest
    rw [deserialize_bind (fits_u32 _)]
    cases b <;> rfl

instance : Xdr Bool := ⟨boolCodec⟩

@[simp] theorem fits_bool (b : Bool) : Fits b := trivial

@[simp] theorem length_serialize_bool (b : Bool) : (serialize b).length = 4 :=
  length_serialize_u32 _

/-- `xdr_enum_serde!`: the numbers of an enumeration, and the text that refuses any other. -/
def enumCodec (name : String) (values : List α) (code : α → UInt32)
    (h : ∀ a, (values.find? fun b => code b = code a) = some a) : Codec XdrError α where
  encode a := serialize (code a)
  decode := do
    let r : UInt32 ← deserialize
    match values.find? fun b => code b = r with
    | some p => return p
    | none => throw (.invalidData ("Invalid value for " ++ name))
  Fits _ := True
  decode_encode := by
    intro a _ rest
    rw [deserialize_bind (fits_u32 _), h]
    rfl

/-! ## Bytes -/

/-- What is missing to a multiple of four. -/
def padding (length : Nat) : Nat := (4 - length % 4) % 4

/-- `Vec<u8>`: the length, the bytes, and zeros up to a multiple of four. -/
def opaqueCodec : Codec XdrError Bytes where
  encode bytes :=
    serialize (UInt32.ofNat bytes.length) ++ (bytes ++ List.replicate (padding bytes.length) 0)
  decode := do
    let length : UInt32 ← deserialize
    let bytes ← takeExact .unexpectedEof length.toNat
    -- whatever the padding holds is skipped
    let _ ← takeExact .unexpectedEof (padding length.toNat)
    return bytes
  Fits bytes := bytes.length < 2 ^ 32 - 1
  decode_encode := by
    intro bytes hlen rest
    have hnat : (UInt32.ofNat bytes.length).toNat = bytes.length :=
      UInt32.toNat_ofNat_of_lt' (by show bytes.length < 2 ^ 32; omega)
    rw [List.append_assoc, deserialize_bind (fits_u32 _), List.append_assoc]
    show (takeExact XdrError.unexpectedEof _ (bytes ++ (_ ++ rest)) >>= fun p => _) = _
    rw [hnat, takeExact_append rfl]
    show (takeExact XdrError.unexpectedEof _ (_ ++ rest) >>= fun p => _) = _
    rw [takeExact_append (List.length_replicate ..)]
    rfl

instance : Xdr Bytes := ⟨opaqueCodec⟩

@[simp] theorem fits_bytes {bytes : Bytes} : Fits bytes ↔ bytes.length < 2 ^ 32 - 1 := Iff.rfl

/-- `[u8; N]`. -/
abbrev ByteArr (n : Nat) := { bytes : Bytes // bytes.length = n }

def arrayCodec (n : Nat) : Codec XdrError (ByteArr n) where
  encode a := a.1
  decode := fun bytes =>
    if h : n ≤ bytes.length then .ok (⟨bytes.take n, List.length_take_of_le h⟩, bytes.drop n)
    else .error .unexpectedEof
  Fits _ := True
  decode_encode := by
    rintro ⟨bytes, rfl⟩ _ rest
    dsimp only
    rw [dif_pos (by simp)]
    simp only [List.take_left, List.drop_left]

instance (n : Nat) : Xdr (ByteArr n) := ⟨arrayCodec n⟩

@[simp] theorem fits_array {n : Nat} (a : ByteArr n) : Fits a := trivial

/-! ## Structures and flagged values -/

instance [Xdr α] [Xdr β] : Xdr (α × β) := ⟨Xdr.codec.pair Xdr.codec⟩

@[simp] theorem serialize_pair [Xdr α] [Xdr β] (p : α × β) :
    serialize p = serialize p.1 ++ serialize p.2 := rfl

/-- `xdr_struct!`: the fields in the order in which they are listed. -/
def structCodec [Xdr α] (fields : β → α) (make : α → β) (h : ∀ b, make (fields b) = b) :
    Codec XdrError β :=
  Xdr.codec.map fields make h

/-- `xdr_bool_union!`. -/
instance [Xdr α] : Xdr (Option α) := ⟨Codec.optional boolCodec Xdr.codec fits_bool⟩

@[simp] theorem serialize_some [Xdr α] (a : α) :
    serialize (some a) = serialize true ++ serialize a := rfl

end NessieStore.Rpc
