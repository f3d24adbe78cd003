import NessieStore.Lib.LittleEndian

/-!
# Codecs

A codec writes values as bytes and reads them off the front of a list. Its one law is that reading
undoes writing and leaves alone what stands behind, for the values that `Fits` admits (a text that is
too long for its length field does not fit). A reader may accept more than the writer writes, so the
converse is not a law.

Codecs are put together as formats are: one behind the other (`pair`), under another name (`map`), and
a flag in front of a value that may be missing (`optional`). A tagged union is read by its own
definition, with `decode_bind` for each of its fields.
-/

set_option autoImplicit false

namespace NessieStore.Lib

/-- A reader takes a value off the front of a list of bytes, or refuses the list. -/
abbrev Parse (ε : Type) := StateT (List UInt8) (Except ε)

/-- `read_exact`: the next `n` bytes, if there are that many. -/
def takeExact {ε : Type} (eof : ε) (n : Nat) : Parse ε (List UInt8) := fun bytes =>
  if n ≤ bytes.length then .ok (bytes.take n, bytes.drop n) else .error eof

theorem takeExact_append {ε : Type} {eof : ε} {n : Nat} {bytes : List UInt8}
    (h : bytes.length = n) (rest : List UInt8) :
    takeExact eof n (bytes ++ rest) = .ok (bytes, rest) := by
  subst h
  unfold takeExact
  rw [if_pos (by simp), List.take_left, List.drop_left]

structure Codec (ε α : Type) where
  encode : α → List UInt8
  decode : Parse ε α
  /-- The values that can be written. -/
  Fits : α → Prop
  decode_encode : ∀ {a : α}, Fits a → ∀ rest, decode (encode a ++ rest) = .ok (a, rest)

namespace Codec

variable {ε α β γ : Type}

/-- A sequence of reads whose first finds what was written. -/
theorem decode_bind (c : Codec ε α) {a : α} (h : c.Fits a) (f : α → Parse ε β) (rest : List UInt8) :
    (c.decode >>= f) (c.encode a ++ rest) = f a rest := by
  show (c.decode (c.encode a ++ rest) >>= fun p => f p.1 p.2) = f a rest
  rw [c.decode_encode h]
  rfl

/-- One value behind another. -/
def pair (c : Codec ε α) (d : Codec ε β) : Codec ε (α × β) where
  encode p := c.encode p.1 ++ d.encode p.2
  decode := do
    let a ← c.decode
    let b ← d.decode
    return (a, b)
  Fits p := c.Fits p.1 ∧ d.Fits p.2
  decode_encode := by
    rintro ⟨a, b⟩ ⟨ha, hb⟩ rest
    rw [List.append_assoc, c.decode_bind ha, d.decode_bind hb]
    rfl

/-- Values of another type, written as values of `α`. -/
def map (c : Codec ε α) (out : β → α) (back : α → β) (h : ∀ b, back (out b) = b) : Codec ε β where
  encode b := c.encode (out b)
  decode := back <$> c.decode
  Fits b := c.Fits (out b)
  decode_encode := by
    intro b hb rest
    rw [map_eq_pure_bind, c.decode_bind hb]
    show Except.ok (back (out b), rest) = _
    rw [h]

/-- A flag says whether the value follows. -/
def optional (flag : Codec ε Bool) (c : Codec ε α) (hflag : ∀ b, flag.Fits b) :
    Codec ε (Option α) where
  encode
    | none => flag.encode false
    | some a => flag.encode true ++ c.encode a
  decode := do
    let follows ← flag.decode
    if follows = false then return none
    else
      let a ← c.decode
      return some a
  Fits a := ∀ x ∈ a, c.Fits x
  decode_encode := by
    intro a ha rest
    cases a with
    | none =>
      rw [flag.decode_bind (hflag false)]
      rfl
    | some a =>
      dsimp only
      rw [List.append_assoc, flag.decode_bind (hflag true)]
      show (c.decode >>= fun a => pure (some a)) (c.encode a ++ rest) = _
      rw [c.decode_bind (ha a rfl)]
      rfl

/-- Values with a flag in front of each, up to a flag that says that none follows. -/
def chainDecode (flag : Parse ε Bool) (d : Parse ε α) (eof : ε) : Nat → Parse ε (List α)
  | 0 => throw eof
  | n + 1 => do
    let follows ← flag
    if follows = false then return []
    else
      let a ← d
      let as ← chainDecode flag d eof n
      return a :: as

theorem chainDecode_encode (flag : Codec ε Bool) (c : Codec ε α) (eof : ε)
    (hflag : ∀ b, flag.Fits b) {as : List α} (h : ∀ a ∈ as, c.Fits a) (rest : List UInt8) {n : Nat}
    (hn : as.length < n) :
    chainDecode flag.decode c.decode eof n
      (as.flatMap (fun a => flag.encode true ++ c.encode a) ++ (flag.encode false ++ rest)) =
        .ok (as, rest) := by
  induction n generalizing as with
  | zero => exact absurd hn (Nat.not_lt_zero _)
  | succ n ih =>
    cases as with
    | nil =>
      rw [List.flatMap_nil, List.nil_append, chainDecode, flag.decode_bind (hflag false)]
      rfl
    | cons a as =>
      obtain ⟨ha, has⟩ := List.forall_mem_cons.mp h
      rw [List.flatMap_cons, List.append_assoc, List.append_assoc, chainDecode,
        flag.decode_bind (hflag true)]
      show (c.decode >>= fun a => chainDecode flag.decode c.decode eof n >>= fun as =>
        pure (a :: as)) _ = _
      rw [c.decode_bind ha]
      show (chainDecode flag.decode c.decode eof n _ >>= fun p =>
        (pure (a :: p.1) : Parse ε (List α)) p.2) = _
      rw [ih has (Nat.lt_of_succ_lt_succ hn)]
      rfl

/-- A list as a chain. Each value takes up some bytes, so their number bounds the reading. -/
def chain (flag : Codec ε Bool) (c : Codec ε α) (eof : ε) (hflag : ∀ b, flag.Fits b)
    (hpos : ∀ b, 0 < (flag.encode b).length) : Codec ε (List α) where
  encode as := as.flatMap (fun a => flag.encode true ++ c.encode a) ++ flag.encode false
  decode := fun bytes => chainDecode flag.decode c.decode eof bytes.length bytes
  Fits as := ∀ a ∈ as, c.Fits a
  decode_encode := by
    intro as has rest
    have hlength : as.length ≤ (as.flatMap fun a => flag.encode true ++ c.encode a).length := by
      clear has
      induction as with
      | nil => exact Nat.le_refl 0
      | cons a as ih =>
        have := hpos true
        rw [List.flatMap_cons, List.length_append, List.length_append, List.length_cons]
        omega
    rw [List.append_assoc]
    apply chainDecode_encode flag c eof hflag has rest
    have := hpos false
    rw [List.length_append, List.length_append]
    omega

end Codec

/-! ## Big-endian numbers -/

/-- The low `w` bytes of `n`, highest first. -/
def beBytes (w n : Nat) : List UInt8 := (leBytes w n).reverse

def ofBeBytes (bytes : List UInt8) : Nat := ofLeBytes bytes.reverse

@[simp] theorem length_beBytes (w n : Nat) : (beBytes w n).length = w := by
  rw [beBytes, List.length_reverse, length_leBytes]

theorem ofBeBytes_beBytes {w n : Nat} (h : n < 256 ^ w) : ofBeBytes (beBytes w n) = n := by
  rw [ofBeBytes, beBytes, List.reverse_reverse, ofLeBytes_leBytes h]

/-- Numbers of `w` bytes, highest byte first. -/
def beCodec {ε : Type} (eof : ε) (w : Nat) : Codec ε Nat where
  encode n := beBytes w n
  decode := ofBeBytes <$> takeExact eof w
  Fits n := n < 256 ^ w
  decode_encode := by
    intro n hn rest
    rw [map_eq_pure_bind]
    show (takeExact eof w (beBytes w n ++ rest) >>= fun p =>
      (pure (ofBeBytes p.1) : Parse ε Nat) p.2) = _
    rw [takeExact_append (length_beBytes w n)]
    show Except.ok (ofBeBytes (beBytes w n), rest) = _
    rw [ofBeBytes_beBytes hn]

end NessieStore.Lib
