import NessieStore.Rpc.Handlers

/-!
# The page of a listing

What the loop of `readdir` writes (`nfs_handlers.rs`): the beginning of what the file system has listed,
as far as it fits (`Fills`), as the list that the protocol has for it. The loop stops at the first entry
that is too much, so the number of entries is determined by the limit.

`readReply` is the client that reads a reply by the types of the protocol and wants nothing left over.
-/

set_option autoImplicit false

namespace NessieStore.Rpc

open Lib

variable {α β ρ : Type}

/-- `dirlist3`. -/
structure DirList where
  entries : List Entry3
  eof : Bool
deriving DecidableEq

instance : Xdr DirList where
  codec := ((Codec.chain boolCodec Xdr.codec .unexpectedEof fits_bool fun b => by
      rw [show (boolCodec.encode b).length = 4 from length_serialize_bool b]
      decide).pair boolCodec).map
    (fun l => (l.entries, l.eof)) (fun f => ⟨f.1, f.2⟩) fun _ => rfl

theorem fits_dirList {l : DirList} : Fits l ↔ ∀ a ∈ l.entries, Fits a := by
  show (∀ a ∈ l.entries, Fits a) ∧ True ↔ _
  rw [and_true]

/-- Entries on the wire, each behind its flag. -/
def chained (entries : List DirEntry3) : Bytes :=
  entries.flatMap fun e => serialize true ++ serialize e.entry

theorem serialize_dirList (entries : List DirEntry3) (eof : Bool) :
    serialize (DirList.mk (entries.map DirEntry3.entry) eof) =
      chained entries ++ serialize false ++ serialize eof := by
  rw [chained, ← List.flatMap_map DirEntry3.entry fun a => serialize true ++ serialize a]
  rfl

@[simp] theorem chained_nil : chained [] = [] := rfl

theorem chained_cons (e : DirEntry3) (entries : List DirEntry3) :
    chained (e :: entries) = (serialize true ++ serialize e.entry) ++ chained entries := rfl

section Fills

/-- The first `k` entries fit behind so many bytes, and the next one does not. -/
structure Fills (maxBytes written : Nat) (es : List DirEntry3) (k : Nat) : Prop where
  le : k ≤ es.length
  bytes : 0 < k → written + (chained (es.take k)).length < maxBytes
  full : ∀ e, es[k]? = some e →
    maxBytes ≤ written + (chained (es.take k)).length + (serialize true ++ serialize e.entry).length

variable {maxBytes written : Nat} {e : DirEntry3} {rest : List DirEntry3}

theorem fills_nil : Fills maxBytes written [] 0 where
  le := Nat.le_refl 0
  bytes h := absurd h (Nat.lt_irrefl 0)
  full e h := by cases h

theorem fills_zero (h : ¬ (serialize true ++ serialize e.entry).length + written < maxBytes) :
    Fills maxBytes written (e :: rest) 0 where
  le := Nat.zero_le _
  bytes h := absurd h (Nat.lt_irrefl 0)
  full e' h' := by
    obtain rfl : e = e' := Option.some.inj h'
    rw [List.take_zero, chained_nil, List.length_nil]
    omega

theorem Fills.cons {k : Nat} (hroom : (serialize true ++ serialize e.entry).length + written < maxBytes)
    (h : Fills maxBytes (written + (serialize true ++ serialize e.entry).length) rest k) :
    Fills maxBytes written (e :: rest) (k + 1) := by
  have hbytes : written + (chained ((e :: rest).take (k + 1))).length =
      written + (serialize true ++ serialize e.entry).length + (chained (rest.take k)).length := by
    rw [List.take_succ_cons, chained_cons]
    simp only [List.length_append, Nat.add_assoc]
  constructor
  · exact Nat.succ_le_succ h.le
  · intro _
    rw [hbytes]
    rcases Nat.eq_zero_or_pos k with rfl | hk
    · rw [List.take_zero, chained_nil, List.length_nil]
      omega
    · exact h.bytes hk
  · intro e' he'
    rw [hbytes]
    exact h.full e' he'

/-- The loop writes what fits, and says whether that was all. -/
theorem writeEntries_eq (maxBytes written : Nat) (es : List DirEntry3) :
    ∃ k, Fills maxBytes written es k ∧
      writeEntries maxBytes written es = (chained (es.take k), decide (k = es.length)) := by
  induction es generalizing written with
  | nil => exact ⟨0, fills_nil, rfl⟩
  | cons e rest ih =>
    by_cases hroom : (serialize true ++ serialize e.entry).length + written < maxBytes
    · obtain ⟨k, hfills, heq⟩ := ih (written + (serialize true ++ serialize e.entry).length)
      refine ⟨k + 1, hfills.cons hroom, ?_⟩
      rw [writeEntries]
      refine (if_pos hroom).trans ?_
      rw [heq, List.take_succ_cons, chained_cons]
      simp only [List.length_cons, Nat.add_right_cancel_iff]
    · refine ⟨0, fills_zero hroom, ?_⟩
      rw [writeEntries]
      refine (if_neg hroom).trans ?_
      simp

end Fills

/-- A listing is a result of the protocol, with the entries that fit. -/
theorem listing_eq (xid : UInt32) (dirAttr : Except NfsStat3 Fattr3) (maxBytes : Nat)
    (result : ReadDirResult) :
    ∃ k, Fills maxBytes (listingFront xid dirAttr).length result.entries k ∧
      listing xid dirAttr maxBytes result =
        answer xid .ok (serialize (dirAttr.toOption, dirversion dirAttr,
          DirList.mk ((result.entries.take k).map DirEntry3.entry)
            (decide (k = result.entries.length) && result.isEnd))) := by
  obtain ⟨k, hfills, heq⟩ := writeEntries_eq maxBytes (listingFront xid dirAttr).length result.entries
  refine ⟨k, hfills, ?_⟩
  have heof : (if decide (k = result.entries.length) = true then result.isEnd else false) =
      (decide (k = result.entries.length) && result.isEnd) := by
    cases decide (k = result.entries.length) <;> rfl
  simp only [listing, heq, heof]
  simp only [listingFront, answer, serialize_pair, serialize_dirList, List.append_assoc]

/-! ## Results -/

/-- A result: what belongs to a success, or a status and what belongs to a failure. -/
abbrev Res (α β : Type) := Except (NfsStat3 × β) α

def resCodec [Xdr α] [Xdr β] : Codec XdrError (Res α β) where
  encode
    | .ok a => serialize NfsStat3.ok ++ serialize a
    | .error (stat, b) => serialize stat ++ serialize b
  decode := do
    let stat : NfsStat3 ← deserialize
    if stat = .ok then
      let a ← deserialize
      return .ok a
    else
      let b ← deserialize
      return .error (stat, b)
  Fits
    | .ok a => Fits a
    | .error (stat, b) => stat ≠ .ok ∧ Fits b
  decode_encode := by
    intro r hfits rest
    cases r with
    | ok a =>
      dsimp only
      rw [List.append_assoc, deserialize_bind (fits_stat _), if_pos rfl, deserialize_bind hfits]
      rfl
    | error e =>
      dsimp only
      rw [List.append_assoc, deserialize_bind (fits_stat _), if_neg hfits.1, deserialize_bind hfits.2]
      rfl

instance [Xdr α] [Xdr β] : Xdr (Res α β) := ⟨resCodec⟩

/-! ## The client -/

/-- A reply, read to its end: the call that it answers, and the result or why there is none. -/
def readReply (ρ : Type) [Xdr ρ] (out : Bytes) : Option (UInt32 × Except AcceptBody ρ) :=
  match (deserialize out : Except XdrError (RpcMsg × Bytes)) with
  | .error _ => none
  | .ok (msg, rest) =>
    match msg.body with
    | .reply (.msgAccepted reply) =>
      if reply.replyData = .success then
        match (deserialize rest : Except XdrError (ρ × Bytes)) with
        | .ok (res, []) => some (msg.xid, .ok res)
        | _ => none
      else if rest = [] then some (msg.xid, .error reply.replyData)
      else none
    | _ => none

section Readable

variable [Xdr α] [Xdr β] [Xdr ρ] {xid : UInt32}

theorem readReply_success (xid : UInt32) (body : Bytes) :
    readReply ρ (serialize (makeSuccessReply xid) ++ body) =
      match (deserialize body : Except XdrError (ρ × Bytes)) with
      | .ok (res, []) => some (xid, .ok res)
      | _ => none := by
  unfold readReply makeSuccessReply
  rw [deserialize_serialize (fits_acceptedMessage xid .success)]
  rfl

theorem readReply_serialize {res : ρ} (h : Fits res) :
    readReply ρ (serialize (makeSuccessReply xid) ++ serialize res) = some (xid, .ok res) := by
  rw [readReply_success, deserialize_whole h]

theorem readReply_ok {a : α} (h : Fits a) :
    readReply (Res α β) (answer xid .ok (serialize a)) = some (xid, .ok (.ok a)) :=
  @readReply_serialize (Res α β) _ xid (.ok a) h

end Readable

end NessieStore.Rpc
