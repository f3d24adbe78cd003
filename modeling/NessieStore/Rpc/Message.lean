import NessieStore.Rpc.Xdr

/-!
# RPC messages

The call and the reply of a remote procedure (`nessie-nfsserve`, `rpc.rs`). The arguments of a call
and the results behind an accepted reply are no part of the message: they follow it in the same
record.

A union is read into a value that is there already, and an unknown discriminant leaves that value as
it is: a message of an unknown type is read as a call of RPC version 0, with nothing taken off the
input behind the discriminant. `accept_body` is the exception, where every number above three is
`GARBAGE_ARGS`.
-/

set_option autoImplicit false

namespace NessieStore.Rpc

open Lib

/-- A union of two kinds of body under the numbers 0 and 1; any other number is read as `unknown`. -/
def unionCodec {α β γ : Type} [Xdr α] [Xdr β] (view : γ → α ⊕ β) (make : α ⊕ β → γ)
    (h : ∀ c, make (view c) = c) (unknown : γ) : Codec XdrError γ where
  encode c :=
    match view c with
    | .inl v => serialize (0 : UInt32) ++ serialize v
    | .inr v => serialize (1 : UInt32) ++ serialize v
  decode := do
    let c : UInt32 ← deserialize
    if c = 0 then
      let r ← deserialize
      return make (.inl r)
    else if c = 1 then
      let r ← deserialize
      return make (.inr r)
    else return unknown
  Fits c :=
    match view c with
    | .inl v => Fits v
    | .inr v => Fits v
  decode_encode := by
    intro c hfits rest
    have hmake := h c
    cases hview : view c with
    | inl v =>
      rw [hview] at hfits hmake
      rw [List.append_assoc, deserialize_bind (fits_u32 _), if_pos rfl, deserialize_bind hfits]
      show Except.ok (make (.inl v), rest) = _
      rw [hmake]
    | inr v =>
      rw [hview] at hfits hmake
      rw [List.append_assoc, deserialize_bind (fits_u32 _), if_neg (by decide), if_pos rfl,
        deserialize_bind hfits]
      show Except.ok (make (.inr v), rest) = _
      rw [hmake]

/-! ## Credentials -/

inductive AuthStat
  | badCred
  | rejectedCred
  | badVerf
  | rejectedVerf
  | tooWeak
deriving DecidableEq

def AuthStat.code : AuthStat → UInt32
  | badCred => 1
  | rejectedCred => 2
  | badVerf => 3
  | rejectedVerf => 4
  | tooWeak => 5

instance : Xdr AuthStat where
  codec := enumCodec "auth_stat" [.badCred, .rejectedCred, .badVerf, .rejectedVerf, .tooWeak]
    AuthStat.code (by rintro ⟨⟩ <;> rfl)

inductive AuthFlavor
  | null
  | unix
  | short
  | des
deriving DecidableEq

def AuthFlavor.code : AuthFlavor → UInt32
  | null => 0
  | unix => 1
  | short => 2
  | des => 3

instance : Xdr AuthFlavor where
  codec := enumCodec "auth_flavor" [.null, .unix, .short, .des] AuthFlavor.code
    (by rintro ⟨⟩ <;> rfl)

structure OpaqueAuth where
  flavor : AuthFlavor
  body : Bytes
deriving DecidableEq

instance : Xdr OpaqueAuth where
  codec := structCodec (fun a => (a.flavor, a.body)) (fun f => ⟨f.1, f.2⟩) fun _ => rfl

def OpaqueAuth.default : OpaqueAuth := ⟨.null, []⟩

/-! ## Calls -/

structure CallBody where
  rpcvers : UInt32
  prog : UInt32
  vers : UInt32
  proc : UInt32
  cred : OpaqueAuth
  verf : OpaqueAuth
deriving DecidableEq

instance : Xdr CallBody where
  codec := structCodec (fun c => (c.rpcvers, c.prog, c.vers, c.proc, c.cred, c.verf))
    (fun f => ⟨f.1, f.2.1, f.2.2.1, f.2.2.2.1, f.2.2.2.2.1, f.2.2.2.2.2⟩) fun _ => rfl

def CallBody.default : CallBody := ⟨0, 0, 0, 0, .default, .default⟩

/-! ## Replies -/

structure MismatchInfo where
  low : UInt32
  high : UInt32
deriving DecidableEq

instance : Xdr MismatchInfo where
  codec := structCodec (fun m => (m.low, m.high)) (fun f => ⟨f.1, f.2⟩) fun _ => rfl

inductive AcceptBody
  | success
  | progUnavail
  | progMismatch (info : MismatchInfo)
  | procUnavail
  | garbageArgs
deriving DecidableEq

def acceptBodyCodec : Codec XdrError AcceptBody where
  encode
    | .success => serialize (0 : UInt32)
    | .progUnavail => serialize (1 : UInt32)
    | .progMismatch v => serialize (2 : UInt32) ++ serialize v
    | .procUnavail => serialize (3 : UInt32)
    | .garbageArgs => serialize (4 : UInt32)
  decode := do
    let c : UInt32 ← deserialize
    if c = 0 then return .success
    else if c = 1 then return .progUnavail
    else if c = 2 then
      let r ← deserialize
      return .progMismatch r
    else if c = 3 then return .procUnavail
    else return .garbageArgs
  Fits
    | .progMismatch v => Fits v
    | _ => True
  decode_encode := by
    intro a hfits rest
    cases a with
    | progMismatch v =>
      dsimp only
      rw [List.append_assoc, deserialize_bind (fits_u32 _), if_neg (by decide), if_neg (by decide),
        if_pos rfl, deserialize_bind hfits]
      rfl
    | success => exact deserialize_bind (fits_u32 0) _ rest
    | progUnavail => exact deserialize_bind (fits_u32 1) _ rest
    | procUnavail => exact deserialize_bind (fits_u32 3) _ rest
    | garbageArgs => exact deserialize_bind (fits_u32 4) _ rest

instance : Xdr AcceptBody := ⟨acceptBodyCodec⟩

structure AcceptedReply where
  verf : OpaqueAuth
  replyData : AcceptBody
deriving DecidableEq

instance : Xdr AcceptedReply where
  codec := structCodec (fun r => (r.verf, r.replyData)) (fun f => ⟨f.1, f.2⟩) fun _ => rfl

inductive RejectedReply
  | rpcMismatch (info : MismatchInfo)
  | authError (stat : AuthStat)
deriving DecidableEq

def RejectedReply.view : RejectedReply → MismatchInfo ⊕ AuthStat
  | rpcMismatch info => .inl info
  | authError stat => .inr stat

instance : Xdr RejectedReply where
  codec := unionCodec RejectedReply.view (Sum.elim .rpcMismatch .authError) (by rintro ⟨⟩ <;> rfl)
    (.rpcMismatch ⟨0, 0⟩)

inductive ReplyBody
  | msgAccepted (reply : AcceptedReply)
  | msgDenied (reply : RejectedReply)
deriving DecidableEq

def ReplyBody.view : ReplyBody → AcceptedReply ⊕ RejectedReply
  | msgAccepted reply => .inl reply
  | msgDenied reply => .inr reply

instance : Xdr ReplyBody where
  codec := unionCodec ReplyBody.view (Sum.elim .msgAccepted .msgDenied) (by rintro ⟨⟩ <;> rfl)
    (.msgAccepted ⟨.default, .success⟩)

/-! ## Messages -/

inductive RpcBody
  | call (body : CallBody)
  | reply (body : ReplyBody)
deriving DecidableEq

def RpcBody.view : RpcBody → CallBody ⊕ ReplyBody
  | call body => .inl body
  | reply body => .inr body

instance : Xdr RpcBody where
  codec := unionCodec RpcBody.view (Sum.elim .call .reply) (by rintro ⟨⟩ <;> rfl) (.call .default)

structure RpcMsg where
  xid : UInt32
  body : RpcBody
deriving DecidableEq

instance : Xdr RpcMsg where
  codec := structCodec (fun m => (m.xid, m.body)) (fun f => ⟨f.1, f.2⟩) fun _ => rfl

/-- A message that accepts a call; the verifier is always empty. -/
def acceptedMessage (xid : UInt32) (data : AcceptBody) : RpcMsg :=
  ⟨xid, .reply (.msgAccepted ⟨.default, data⟩)⟩

def makeSuccessReply (xid : UInt32) : RpcMsg := acceptedMessage xid .success

theorem fits_acceptedMessage (xid : UInt32) (data : AcceptBody) : Fits (acceptedMessage xid data) := by
  refine ⟨fits_u32 xid, ⟨trivial, ?_⟩, ?_⟩
  · show (0 : Nat) < 2 ^ 32 - 1
    decide
  · cases data with
    | progMismatch info => exact ⟨fits_u32 _, fits_u32 _⟩
    | _ => trivial

theorem length_makeSuccessReply (xid : UInt32) : (serialize (makeSuccessReply xid)).length = 24 := by
  show (serialize xid ++ _).length = 24
  rw [List.length_append, length_serialize_u32]
  rfl

end NessieStore.Rpc
