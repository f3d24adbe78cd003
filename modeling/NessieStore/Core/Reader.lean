import NessieStore.Core.Cas
import NessieStore.Lib.LittleEndian
import NessieStore.Lib.Program

/-!
# Reading canonical bytes

The bounds-checked cursor of the canonical codecs (`nessie-backend-core`, `tree.rs`;
`action_result.rs` has a copy). Each codec has its own `bad`, the error with its name in front, so
every read takes it as an argument. A `usize` has 64 bits here, which leaves `read_delimited` no
length to refuse before it reads.

A reader undoes the writer of the same name and stops right behind what was written (`_append`), and
it accepts nothing else: what it consumed is what the writer writes for its result (`_exact`).
-/

set_option autoImplicit false

namespace NessieStore

open Lib

/-- `write_delimited`: the length as eight bytes, then the bytes. -/
def writeDelimited (bytes : Bytes) : Bytes := leBytes 8 bytes.length ++ bytes

/-- `Reader`: how far it has read, and what is left. -/
structure Reader where
  pos : Nat
  rest : Bytes

namespace Reader

variable (bad : String → BackendError)

def new (buf : Bytes) : Reader := ⟨0, buf⟩

def take (r : Reader) (n : Nat) : Except BackendError (Bytes × Reader) :=
  if n ≤ r.rest.length then .ok (r.rest.take n, ⟨r.pos + n, r.rest.drop n⟩)
  else if u64Max < r.pos + n then .error (bad "length overflow")
  else .error (bad "truncated")

def expectTag (r : Reader) (tag : Bytes) : Except BackendError Reader := do
  let (bytes, r) ← r.take bad tag.length
  if bytes = tag then .ok r else .error (bad "wrong domain tag")

def readU8 (r : Reader) : Except BackendError (UInt8 × Reader) := do
  let (bytes, r) ← r.take bad 1
  .ok (bytes.headD 0, r)

def readBool (r : Reader) : Except BackendError (Bool × Reader) := do
  let (byte, r) ← r.readU8 bad
  if byte = 0 then .ok (false, r)
  else if byte = 1 then .ok (true, r)
  else .error (bad "bool not 0/1")

def readU64 (r : Reader) : Except BackendError (Nat × Reader) := do
  let (bytes, r) ← r.take bad 8
  .ok (ofLeBytes bytes, r)

def readDelimited (r : Reader) : Except BackendError (Bytes × Reader) := do
  let (len, r) ← r.readU64 bad
  r.take bad len

def readDigest (r : Reader) : Except BackendError (Digest × Reader) := do
  let (bytes, r) ← r.readDelimited bad
  match Digest.ofMultihashBytes bytes with
  | .ok digest => .ok (digest, r)
  | .error _ => .error (bad "bad embedded digest")

def expectEnd (r : Reader) : Except BackendError Unit :=
  if r.rest = [] then .ok () else .error (bad "trailing bytes")

/-! ## Reading what was written -/

variable {bad} (p : Nat) (tail : Bytes)

theorem take_append {n : Nat} {bytes : Bytes} (h : bytes.length = n) :
    take bad ⟨p, bytes ++ tail⟩ n = .ok (bytes, ⟨p + n, tail⟩) := by
  subst h
  unfold take
  rw [if_pos (by simp), List.take_left, List.drop_left]

theorem expectTag_append (tag : Bytes) :
    expectTag bad ⟨p, tag ++ tail⟩ tag = .ok ⟨p + tag.length, tail⟩ := by
  unfold expectTag
  rw [take_append p tail rfl]
  exact if_pos rfl

theorem readU8_cons (byte : UInt8) :
    readU8 bad ⟨p, byte :: tail⟩ = .ok (byte, ⟨p + 1, tail⟩) := by
  unfold readU8
  rw [← List.singleton_append, take_append p tail (List.length_singleton)]
  rfl

theorem readBool_cons (b : Bool) :
    readBool bad ⟨p, b.toUInt8 :: tail⟩ = .ok (b, ⟨p + 1, tail⟩) := by
  unfold readBool
  rw [readU8_cons]
  cases b <;> rfl

theorem readU64_append {n : Nat} (h : n < 2 ^ 64) :
    readU64 bad ⟨p, leBytes 8 n ++ tail⟩ = .ok (n, ⟨p + 8, tail⟩) := by
  unfold readU64
  rw [take_append p tail (length_leBytes 8 n)]
  show Except.ok (ofLeBytes (leBytes 8 n), (⟨p + 8, tail⟩ : Reader)) = _
  rw [ofLeBytes_leBytes h]

theorem readDelimited_append {bytes : Bytes} (h : bytes.length < 2 ^ 64) :
    readDelimited bad ⟨p, writeDelimited bytes ++ tail⟩ =
      .ok (bytes, ⟨p + 8 + bytes.length, tail⟩) := by
  unfold readDelimited writeDelimited
  rw [List.append_assoc, readU64_append p _ h]
  exact take_append (p + 8) tail rfl

theorem readDigest_append (d : Digest) :
    readDigest bad ⟨p, writeDelimited d.toMultihashBytes ++ tail⟩ =
      .ok (d, ⟨p + 8 + d.toMultihashBytes.length, tail⟩) := by
  have hlen : d.toMultihashBytes.length < 2 ^ 64 := by
    simp only [Digest.toMultihashBytes, List.length_cons, d.len]
    cases d.algo <;> decide
  unfold readDigest
  rw [readDelimited_append p tail hlen]
  show (match Digest.ofMultihashBytes d.toMultihashBytes with
    | .ok digest => Except.ok (digest, (⟨p + 8 + d.toMultihashBytes.length, tail⟩ : Reader))
    | .error _ => .error (bad "bad embedded digest")) = _
  rw [Digest.ofMultihashBytes_toMultihashBytes]

/-! ## Nothing else is read -/

variable {r r' : Reader}

theorem take_exact {n : Nat} {bytes : Bytes} (h : r.take bad n = .ok (bytes, r')) :
    r.rest = bytes ++ r'.rest ∧ bytes.length = n := by
  unfold take at h
  split at h
  · next hle =>
    cases h
    exact ⟨(List.take_append_drop n r.rest).symm, List.length_take_of_le hle⟩
  · split at h <;> cases h

theorem expectTag_exact {tag : Bytes} (h : r.expectTag bad tag = .ok r') :
    r.rest = tag ++ r'.rest := by
  obtain ⟨⟨bytes, r₁⟩, htake, hrest⟩ := ok_of_bind h
  dsimp only at hrest
  split at hrest
  · next heq =>
    cases hrest
    rw [← heq]
    exact (take_exact htake).1
  · cases hrest

theorem readU8_exact {byte : UInt8} (h : r.readU8 bad = .ok (byte, r')) :
    r.rest = byte :: r'.rest := by
  obtain ⟨⟨bytes, r₁⟩, htake, hrest⟩ := ok_of_bind h
  cases hrest
  obtain ⟨hsplit, hlen⟩ := take_exact htake
  obtain ⟨b, rfl⟩ := List.length_eq_one_iff.mp hlen
  exact hsplit

theorem readBool_exact {b : Bool} (h : r.readBool bad = .ok (b, r')) :
    r.rest = b.toUInt8 :: r'.rest := by
  obtain ⟨⟨byte, r₁⟩, hbyte, hrest⟩ := ok_of_bind h
  have hread := readU8_exact hbyte
  dsimp only at hrest
  split at hrest
  · next h0 => cases hrest; rw [hread, h0]; rfl
  · split at hrest
    · next h1 => cases hrest; rw [hread, h1]; rfl
    · cases hrest

theorem readU64_exact {n : Nat} (h : r.readU64 bad = .ok (n, r')) :
    r.rest = leBytes 8 n ++ r'.rest ∧ n < 2 ^ 64 := by
  obtain ⟨⟨bytes, r₁⟩, htake, hrest⟩ := ok_of_bind h
  cases hrest
  obtain ⟨hsplit, hlen⟩ := take_exact htake
  have hlt := ofLeBytes_lt bytes
  have hbytes := leBytes_ofLeBytes bytes
  rw [hlen] at hlt hbytes
  rw [hbytes]
  exact ⟨hsplit, hlt⟩

theorem readDelimited_exact {bytes : Bytes} (h : r.readDelimited bad = .ok (bytes, r')) :
    r.rest = writeDelimited bytes ++ r'.rest ∧ bytes.length < 2 ^ 64 := by
  obtain ⟨⟨len, r₁⟩, hlen, htake⟩ := ok_of_bind h
  obtain ⟨hsplit, hlt⟩ := readU64_exact hlen
  obtain ⟨hsplit', rfl⟩ := take_exact htake
  rw [hsplit, hsplit', writeDelimited, List.append_assoc]
  exact ⟨rfl, hlt⟩

theorem readDigest_exact {d : Digest} (h : r.readDigest bad = .ok (d, r')) :
    r.rest = writeDelimited d.toMultihashBytes ++ r'.rest := by
  obtain ⟨⟨bytes, r₁⟩, hbytes, hrest⟩ := ok_of_bind h
  dsimp only at hrest
  split at hrest
  · next digest hdigest =>
    cases hrest
    rw [← Digest.ofMultihashBytes_exact hdigest]
    exact (readDelimited_exact hbytes).1
  · cases hrest

theorem expectEnd_exact {u : Unit} (h : r.expectEnd bad = .ok u) : r.rest = [] := by
  unfold expectEnd at h
  split at h
  · next hnil => exact hnil
  · cases h

end Reader

end NessieStore
