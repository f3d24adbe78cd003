import Mathlib.Data.Nat.Bitwise
import NessieStore.Core.Cas
import NessieStore.Lib.Codec
import NessieStore.Lib.Frames

/-!
# Record marking

A message travels over TCP as a record, and a record as fragments (`nessie-nfsserve`, `rpcwire.rs`):
four bytes of header, of which the highest bit marks the last fragment of the record and the others
are the length, and then that many bytes. `SocketMessageHandler::read` takes one fragment off the
stream and puts it behind those before it; the last one makes the record a message.

The socket gives what it has, in pieces of any size, and `read_exact` waits for the rest of a fragment.
The model takes a fragment when all of it is there. `process_socket` passes the pieces on until the
stream ends or the answer to a message is an error; whatever comes behind that is not read.
-/

set_option autoImplicit false

namespace NessieStore.Rpc

open Lib

/-- The highest bit of a header. -/
def lastFlag : UInt32 := (1 : UInt32) <<< 31

/-- `read_fragment`: whether the first fragment is the last of its record, its data, and the bytes
behind it; nothing as long as some of it is missing. -/
def readFragment (bytes : Bytes) : Option ((Bool × Bytes) × Bytes) :=
  if 4 ≤ bytes.length then
    let fragmentHeader := UInt32.ofNat (ofBeBytes (bytes.take 4))
    let isLast := decide (fragmentHeader &&& lastFlag > 0)
    let length := (fragmentHeader &&& (lastFlag - 1)).toNat
    if length ≤ (bytes.drop 4).length then
      some ((isLast, (bytes.drop 4).take length), (bytes.drop 4).drop length)
    else none
  else none

/-- A fragment with its header. -/
def fragment (isLast : Bool) (data : Bytes) : Bytes :=
  beBytes 4 (data.length + if isLast then 2 ^ 31 else 0) ++ data

/-- A record as a sender cuts it. -/
def record : List Bytes → Bytes
  | [] => []
  | [data] => fragment true data
  | data :: next :: rest => fragment false data ++ record (next :: rest)

/-- The fragments of a record as they are marked. -/
def marked : List Bytes → List (Bool × Bytes)
  | [] => []
  | [data] => [(true, data)]
  | data :: next :: rest => (false, data) :: marked (next :: rest)

/-- The messages that a sequence of fragments completes, behind what there is of the first, and what
there is then of the next. -/
def assemble : Bytes → List (Bool × Bytes) → List Bytes × Bytes
  | cur, [] => ([], cur)
  | cur, (true, data) :: rest => ((cur ++ data) :: (assemble [] rest).1, (assemble [] rest).2)
  | cur, (false, data) :: rest => assemble (cur ++ data) rest

/-! ## Headers -/

theorem header_flag {n : Nat} (h : n < 2 ^ 32) :
    decide (UInt32.ofNat n &&& lastFlag > 0) = decide (2 ^ 31 ≤ n) := by
  have hand : (UInt32.ofNat n &&& lastFlag).toNat = (n.testBit 31).toNat * 2 ^ 31 := by
    rw [UInt32.toNat_and, UInt32.toNat_ofNat', Nat.mod_eq_of_lt h]
    exact Nat.and_two_pow n 31
  have hpos : UInt32.ofNat n &&& lastFlag > 0 ↔ 0 < (n.testBit 31).toNat * 2 ^ 31 := by
    rw [← hand]
    exact UInt32.lt_iff_toNat_lt
  rw [decide_eq_decide, hpos, Nat.testBit_eq_decide_div_mod_eq]
  by_cases hle : 2 ^ 31 ≤ n
  · have hdiv : n / 2 ^ 31 = 1 := by omega
    rw [hdiv]
    exact iff_of_true (by decide) hle
  · have hdiv : n / 2 ^ 31 = 0 := by omega
    rw [hdiv]
    exact iff_of_false (by decide) hle

theorem header_length {n : Nat} (h : n < 2 ^ 32) :
    (UInt32.ofNat n &&& (lastFlag - 1)).toNat = n % 2 ^ 31 := by
  rw [UInt32.toNat_and, UInt32.toNat_ofNat', Nat.mod_eq_of_lt h]
  exact Nat.and_two_pow_sub_one_eq_mod n 31

theorem readFragment_fragment {isLast : Bool} {data : Bytes} (h : data.length < 2 ^ 31)
    (rest : Bytes) : readFragment (fragment isLast data ++ rest) = some ((isLast, data), rest) := by
  have hlt : (data.length + if isLast then 2 ^ 31 else 0) < 2 ^ 32 := by
    cases isLast <;> simp <;> omega
  have hflag : decide (2 ^ 31 ≤ data.length + if isLast then 2 ^ 31 else 0) = isLast := by
    cases isLast with
    | true => exact decide_eq_true (by simp)
    | false => exact decide_eq_false (by simp; omega)
  have hlen : (data.length + if isLast then 2 ^ 31 else 0) % 2 ^ 31 = data.length := by
    cases isLast <;> simp <;> omega
  unfold readFragment fragment
  rw [List.append_assoc, if_pos (by simp), List.take_left' (length_beBytes 4 _),
    List.drop_left' (length_beBytes 4 _), ofBeBytes_beBytes hlt]
  dsimp only
  rw [header_flag hlt, header_length hlt, hflag, hlen, if_pos (by simp), List.take_left,
    List.drop_left]

/-! ## The stream of fragments -/

def framing : Framing UInt8 (Bool × Bytes) where
  next := readFragment
  shorter := by
    intro bytes f rest h
    unfold readFragment at h
    split at h
    · next hfour =>
      dsimp only at h
      split at h
      · cases h
        simp only [List.length_drop]
        omega
      · cases h
    · cases h
  stable := by
    intro bytes f rest h more
    unfold readFragment at h ⊢
    split at h
    · next hfour =>
      have htake : (bytes ++ more).take 4 = bytes.take 4 := List.take_append_of_le_length hfour
      have hdrop : (bytes ++ more).drop 4 = bytes.drop 4 ++ more := List.drop_append_of_le_length hfour
      rw [if_pos (by rw [List.length_append]; omega), htake, hdrop]
      dsimp only at h ⊢
      split at h
      · next hlen =>
        cases h
        rw [if_pos (by rw [List.length_append]; omega), List.take_append_of_le_length hlen,
          List.drop_append_of_le_length hlen]
      · cases h
    · cases h

theorem split_fragments {fragments : List (Bool × Bytes)}
    (h : ∀ f ∈ fragments, f.2.length < 2 ^ 31) {tail : Bytes} (htail : readFragment tail = none) :
    framing.split (fragments.flatMap (fun f => fragment f.1 f.2) ++ tail) = (fragments, tail) := by
  induction fragments with
  | nil => exact framing.split_of_none htail
  | cons f fragments ih =>
    obtain ⟨hf, hrest⟩ := List.forall_mem_cons.mp h
    have hnext (rest : Bytes) : framing.next (fragment f.1 f.2 ++ rest) = some (f, rest) :=
      readFragment_fragment hf rest
    rw [List.flatMap_cons, List.append_assoc, framing.split_of_some (hnext _), ih hrest]

theorem record_eq (fragments : List Bytes) :
    record fragments = (marked fragments).flatMap fun f => fragment f.1 f.2 := by
  fun_induction marked fragments with
  | case1 => rfl
  | case2 data => rw [record, List.flatMap_singleton]
  | case3 data next rest ih => rw [record, ih, List.flatMap_cons]

theorem mem_marked {fragments : List Bytes} {f : Bool × Bytes} (h : f ∈ marked fragments) :
    f.2 ∈ fragments := by
  fun_induction marked fragments with
  | case1 => cases h
  | case2 data =>
    obtain rfl := List.mem_singleton.mp h
    exact List.mem_singleton_self data
  | case3 data next rest ih =>
    rcases List.mem_cons.mp h with rfl | h
    · exact List.mem_cons_self
    · exact List.mem_cons_of_mem _ (ih h)

theorem assemble_append (cur : Bytes) (fs gs : List (Bool × Bytes)) :
    assemble cur (fs ++ gs) =
      ((assemble cur fs).1 ++ (assemble (assemble cur fs).2 gs).1, (assemble (assemble cur fs).2 gs).2) := by
  fun_induction assemble cur fs with
  | case1 cur => rfl
  | case2 cur data rest ih =>
    rw [List.cons_append, assemble, ih]
    rfl
  | case3 cur data rest ih => rw [List.cons_append, assemble, ih]

theorem assemble_marked {fragments : List Bytes} (h : fragments ≠ []) (cur : Bytes) :
    assemble cur (marked fragments) = ([cur ++ fragments.flatten], []) := by
  fun_induction marked fragments generalizing cur with
  | case1 => exact absurd rfl h
  | case2 data =>
    rw [assemble, assemble, List.flatten_singleton]
  | case3 data next rest ih =>
    rw [assemble, ih (List.cons_ne_nil _ _), List.flatten_cons (l := data), List.append_assoc]

theorem assemble_records {records : List (List Bytes)} (h : ∀ r ∈ records, r ≠ []) :
    assemble [] (records.flatMap marked) = (records.map List.flatten, []) := by
  induction records with
  | nil => rfl
  | cons r records ih =>
    obtain ⟨hr, hrest⟩ := List.forall_mem_cons.mp h
    rw [List.flatMap_cons, assemble_append, assemble_marked hr, ih hrest]
    rfl

theorem assemble_unfinished (cur : Bytes) (fragments : List Bytes) :
    assemble cur (fragments.map (false, ·)) = ([], cur ++ fragments.flatten) := by
  induction fragments generalizing cur with
  | nil => rw [List.map_nil, assemble, List.flatten_nil, List.append_nil]
  | cons data fragments ih =>
    rw [List.map_cons, assemble, ih, List.flatten_cons, List.append_assoc]

/-! ## The receiving end -/

/-- What a `SocketMessageHandler` holds between two reads: bytes that are not read yet, and the record
so far. -/
structure RecordReader where
  unread : Bytes
  curFragment : Bytes
deriving DecidableEq

/-- What the loop of `process_socket` waits for. -/
inductive SocketEvent
  /-- The socket has a piece of the stream. -/
  | readable (piece : Bytes)
  /-- `handle_rpc` has failed on a message. -/
  | failed

/-- The bytes that are read before the connection is closed. -/
def passedOn : List SocketEvent → Bytes
  | .readable piece :: events => piece ++ passedOn events
  | _ => []

namespace RecordReader

def new : RecordReader := ⟨[], []⟩

/-- A piece of the stream arrives, and every fragment that is complete now is read. -/
def receive (r : RecordReader) (piece : Bytes) : List Bytes × RecordReader :=
  let (fragments, unread) := framing.split (r.unread ++ piece)
  let (messages, curFragment) := assemble r.curFragment fragments
  (messages, ⟨unread, curFragment⟩)

/-- `process_socket`: the messages that the pieces complete, up to the first failure. -/
def processSocket : RecordReader → List SocketEvent → List Bytes × RecordReader
  | r, .readable piece :: events =>
    let (messages, r) := r.receive piece
    let (later, r) := processSocket r events
    (messages ++ later, r)
  | r, _ => ([], r)

theorem receive_eq (r : RecordReader) (piece : Bytes) :
    r.receive piece =
      ((assemble r.curFragment (framing.split (r.unread ++ piece)).1).1,
        ⟨(framing.split (r.unread ++ piece)).2,
          (assemble r.curFragment (framing.split (r.unread ++ piece)).1).2⟩) := rfl

theorem receive_nil {r : RecordReader} (h : readFragment r.unread = none) : r.receive [] = ([], r) := by
  have hsplit : framing.split r.unread = ([], r.unread) := framing.split_of_none h
  rw [receive_eq, List.append_nil, hsplit]
  rfl

/-- The messages depend on the bytes, not on the pieces that they came in. -/
theorem processSocket_eq {r : RecordReader} (h : readFragment r.unread = none)
    (events : List SocketEvent) : r.processSocket events = r.receive (passedOn events) := by
  induction events generalizing r with
  | nil => exact (receive_nil h).symm
  | cons event events ih =>
    cases event with
    | failed => exact (receive_nil h).symm
    | readable piece =>
      have hnone : readFragment (r.receive piece).2.unread = none := framing.next_split _
      show ((r.receive piece).1 ++ ((r.receive piece).2.processSocket events).1,
        ((r.receive piece).2.processSocket events).2) = r.receive (piece ++ passedOn events)
      rw [ih hnone]
      simp only [receive_eq, ← List.append_assoc]
      rw [framing.split_append (r.unread ++ piece), assemble_append]

end RecordReader

/-- However the records are cut into fragments and the stream into pieces, the receiver gets the
records that lie in what was read before the connection was closed, in order, and holds what there is
of the next one. -/
theorem records_delivered (records : List (List Bytes)) (unfinished : List Bytes) (tail : Bytes)
    (events : List SocketEvent) (hrecords : ∀ r ∈ records, r ≠ [] ∧ ∀ data ∈ r, data.length < 2 ^ 31)
    (hunfinished : ∀ data ∈ unfinished, data.length < 2 ^ 31) (htail : readFragment tail = none)
    (hevents : passedOn events =
      records.flatMap record ++ (unfinished.flatMap (fragment false) ++ tail)) :
    RecordReader.new.processSocket events =
      (records.map List.flatten, ⟨tail, unfinished.flatten⟩) := by
  have hstream : passedOn events =
      (records.flatMap marked ++ unfinished.map (false, ·)).flatMap (fun f => fragment f.1 f.2) ++
        tail := by
    have hrecord : record = fun r => (marked r).flatMap fun f => fragment f.1 f.2 := funext record_eq
    rw [hevents, List.flatMap_append, List.flatMap_assoc, List.flatMap_map, List.append_assoc, hrecord]
  have hsmall : ∀ f ∈ records.flatMap marked ++ unfinished.map (false, ·), f.2.length < 2 ^ 31 := by
    intro f hf
    rcases List.mem_append.mp hf with hf | hf
    · obtain ⟨r, hr, hfr⟩ := List.mem_flatMap.mp hf
      exact (hrecords r hr).2 _ (mem_marked hfr)
    · obtain ⟨data, hdata, rfl⟩ := List.mem_map.mp hf
      exact hunfinished data hdata
  rw [RecordReader.processSocket_eq (by rfl), RecordReader.receive_eq]
  show ((assemble [] (framing.split (passedOn events)).1).1,
    RecordReader.mk (framing.split (passedOn events)).2
      (assemble [] (framing.split (passedOn events)).1).2) = _
  rw [hstream, split_fragments hsmall htail, assemble_append,
    assemble_records fun r hr => (hrecords r hr).1, assemble_unfinished, List.append_nil,
    List.nil_append]

/-- Two records, the first in two fragments, in pieces that end within a header and within the data;
then a message fails, and the rest of the third record is not read. -/
theorem records_delivered_pieces :
    RecordReader.new.processSocket
        [.readable [0, 0, 0], .readable [1, 5, 128, 0, 0, 1, 6, 128],
          .readable [0, 0, 2, 7, 8, 0, 0, 0, 4, 9], .failed, .readable [9, 9, 9]] =
      ([[5, 6], [7, 8]], ⟨[0, 0, 0, 4, 9], []⟩) :=
  records_delivered [[[5], [6]], [[7, 8]]] [] [0, 0, 0, 4, 9] _ (by decide) (by decide) (by decide)
    (by decide)

end NessieStore.Rpc
