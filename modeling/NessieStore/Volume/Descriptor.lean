import NessieStore.Core.Cas
import NessieStore.Core.Text
import NessieStore.Lib.Program

/-!
# The replication descriptor

`MemBackend` holds no file bytes, so what it streams to a peer is a text that describes a volume and
one of its snapshots (`nessie-backend-mem`, `encode_repl_stream` and `decode_repl_stream`), one
`key=value` to a line. Reading takes any text, in any order of lines and with unknown keys, and the
last line of a key counts; a value that holds a line break therefore spells keys of its own. Without
one, what was written is read back (`decodeReplStream_encodeReplStream`); `PlainNames` says exactly
for which names it is (`repl_stream_round_trip`).

How `{:?}` writes a string is left open: it is a parameter wherever a message quotes one.
-/

set_option autoImplicit false

namespace NessieStore

open Lib

structure MemReplStream where
  sizeBytes : Option UInt64
  snapshot : Text
  base : Option Text
deriving DecidableEq

def replHeader : Text := "NESSIE-MEM-REPL v1".toList

def encodeReplStream (volume : Text) (sizeBytes : Option UInt64) (snapshot : Text)
    (base : Option Text) : Text :=
  replHeader ++ "\nvolume=".toList ++ volume ++ "\nsize=".toList ++ sizeBytes.elim [] writeU64 ++
    "\nsnapshot=".toList ++ snapshot ++ "\nbase=".toList ++ base.getD [] ++ "\n".toList

/-- What the loop over the lines has read. -/
structure ReplFields where
  sizeBytes : Option UInt64 := none
  snapshot : Option Text := none
  base : Option Text := none

section

variable (debug : Text → String)

/-- One line; `volume=`, unknown keys and lines without `=` are skipped. -/
def ReplFields.readLine (fields : ReplFields) (line : Text) : Except BackendError ReplFields :=
  match splitOnce '=' line with
  | none => .ok fields
  | some (key, value) =>
    if key = "size".toList ∧ value ≠ [] then
      match parseU64 value with
      | some n => .ok { fields with sizeBytes := some n }
      | none => .error (.invalidArgument ("invalid size " ++ debug value))
    else if key = "snapshot".toList then .ok { fields with snapshot := some value }
    else if key = "base".toList ∧ value ≠ [] then .ok { fields with base := some value }
    else .ok fields

def decodeReplStream (raw : Text) : Except BackendError MemReplStream :=
  match lines raw with
  | [] => .error (.invalidArgument "not a nessie-mem replication stream")
  | header :: rest =>
    if header = replHeader then do
      let fields ← rest.foldlM (ReplFields.readLine debug) {}
      match fields.snapshot with
      | none => .error (.invalidArgument "replication stream missing snapshot")
      | some snapshot => .ok ⟨fields.sizeBytes, snapshot, fields.base⟩
    else .error (.invalidArgument "not a nessie-mem replication stream")

end

variable {debug : Text → String}

/-! ## What lines spell -/

/-- The value of a line with that key. -/
def valueOf (key line : Text) : Option Text :=
  match splitOnce '=' line with
  | none => none
  | some (k, value) => if k = key then some value else none

def spelled (key : Text) (ls : List Text) : List Text := ls.filterMap (valueOf key)

/-- The values that are not empty. -/
def given (key : Text) (ls : List Text) : List Text := (spelled key ls).filter (· ≠ [])

/-- The fields after some more lines: of each key the last one counts. -/
def ReplFields.after (fields : ReplFields) (ls : List Text) : ReplFields where
  sizeBytes := ((given "size".toList ls).filterMap parseU64).getLast?.or fields.sizeBytes
  snapshot := (spelled "snapshot".toList ls).getLast?.or fields.snapshot
  base := (given "base".toList ls).getLast?.or fields.base

def SizesParse (ls : List Text) : Prop := ∀ v ∈ given "size".toList ls, (parseU64 v).isSome = true

theorem spelled_append (key : Text) (ls ls' : List Text) :
    spelled key (ls ++ ls') = spelled key ls ++ spelled key ls' := List.filterMap_append

theorem given_append (key : Text) (ls ls' : List Text) :
    given key (ls ++ ls') = given key ls ++ given key ls' := by
  unfold given
  rw [spelled_append, List.filter_append]

theorem sizesParse_append {ls ls' : List Text} :
    SizesParse (ls ++ ls') ↔ SizesParse ls ∧ SizesParse ls' := by
  unfold SizesParse
  rw [given_append, List.forall_mem_append]

theorem ReplFields.after_append (fields : ReplFields) (ls ls' : List Text) :
    fields.after (ls ++ ls') = (fields.after ls).after ls' := by
  unfold after
  simp only [given_append, spelled_append, List.filterMap_append, List.getLast?_append,
    Option.or_assoc]

theorem ReplFields.after_nil (fields : ReplFields) : fields.after [] = fields := rfl

/-- What one line spells. -/
theorem spelled_singleton (key line : Text) :
    spelled key [line] = (match splitOnce '=' line with
      | none => []
      | some (k, value) => if k = key then [value] else []) := by
  unfold spelled
  rw [List.filterMap_cons, List.filterMap_nil, valueOf]
  cases splitOnce '=' line with
  | none => rfl
  | some kv =>
    dsimp only
    by_cases hkey : kv.1 = key
    · rw [if_pos hkey, if_pos hkey]
    · rw [if_neg hkey, if_neg hkey]

theorem ReplFields.readLine_eq_ok {fields fields' : ReplFields} {line : Text} :
    fields.readLine debug line = .ok fields' ↔
      SizesParse [line] ∧ fields.after [line] = fields' := by
  unfold readLine SizesParse after given
  simp only [spelled_singleton]
  cases splitOnce '=' line with
  | none => simp
  | some kv =>
    obtain ⟨key, value⟩ := kv
    dsimp only
    by_cases hsize : key = "size".toList
    · subst hsize
      by_cases hvalue : value = []
      · simp [hvalue]
      · cases hn : parseU64 value with
        | none => simp [hvalue, hn]
        | some n => simp [hvalue, hn]
    · by_cases hsnapshot : key = "snapshot".toList
      · subst hsnapshot
        simp
      · by_cases hbase : key = "base".toList
        · subst hbase
          by_cases hvalue : value = []
          · simp [hvalue]
          · simp [hvalue]
        · rw [if_neg fun h => hsize h.1, if_neg hsnapshot, if_neg fun h => hbase h.1, if_neg hsize,
            if_neg hsnapshot, if_neg hbase]
          simp

/-- The loop succeeds exactly if every size is a number. -/
theorem foldlM_readLine {fields fields' : ReplFields} {ls : List Text} :
    ls.foldlM (ReplFields.readLine debug) fields = .ok fields' ↔
      SizesParse ls ∧ fields.after ls = fields' := by
  induction ls generalizing fields with
  | nil =>
    rw [List.foldlM_nil, ReplFields.after_nil]
    show Except.ok fields = .ok fields' ↔ _
    rw [Except.ok.injEq]
    exact ⟨fun h => ⟨fun _ hv => (List.not_mem_nil hv).elim, h⟩, And.right⟩
  | cons line ls ih =>
    rw [List.foldlM_cons, ← List.singleton_append, sizesParse_append, ReplFields.after_append]
    constructor
    · intro h
      obtain ⟨middle, hline, hrest⟩ := ok_of_bind h
      obtain ⟨hparse, rfl⟩ := ReplFields.readLine_eq_ok.mp hline
      obtain ⟨hparses, heq⟩ := ih.mp hrest
      exact ⟨⟨hparse, hparses⟩, heq⟩
    · rintro ⟨⟨hparse, hparses⟩, heq⟩
      rw [ReplFields.readLine_eq_ok.mpr ⟨hparse, rfl⟩]
      exact ih.mpr ⟨hparses, heq⟩

/-! ## The lines of a descriptor -/

/-- The first line of a value, and the lines that it spells behind it. -/
def firstLine (value : Text) : Text := (lines (value ++ ['\n'])).headD []

def otherLines (value : Text) : List Text := (lines (value ++ ['\n'])).tail

/-- Where the first line of a value ends, whatever stands in front of it. -/
theorem exists_lines (value : Text) : ∃ front rest, ∀ key : Text, '\n' ∉ key →
    lines (key ++ (value ++ ['\n'])) = stripCr (key ++ front) :: rest := by
  by_cases hvalue : '\n' ∈ value
  · obtain ⟨front, back, rfl, hfront⟩ := List.eq_append_cons_of_mem hvalue
    refine ⟨front, lines (back ++ ['\n']), fun key hkey => ?_⟩
    have hline : '\n' ∉ key ++ front := by
      rw [List.mem_append]
      exact not_or.mpr ⟨hkey, hfront⟩
    rw [List.append_assoc, ← List.append_assoc key, List.cons_append]
    exact lines_append _ _ hline
  · refine ⟨value, [], fun key hkey => ?_⟩
    have hline : '\n' ∉ key ++ value := by
      rw [List.mem_append]
      exact not_or.mpr ⟨hkey, hvalue⟩
    rw [← List.append_assoc]
    exact lines_append _ _ hline

/-- A value behind its key: the key is in front of the first line only. -/
theorem lines_keyed {key : Text} (hkey : '\n' ∉ key) (value : Text) :
    lines ((key ++ '=' :: value) ++ ['\n']) = (key ++ '=' :: firstLine value) :: otherLines value := by
  obtain ⟨front, rest, hlines⟩ := exists_lines value
  have hplain := hlines [] List.not_mem_nil
  rw [List.nil_append, List.nil_append] at hplain
  have hkeyed := hlines (key ++ ['=']) (by
    rw [List.mem_append, List.mem_singleton]
    exact not_or.mpr ⟨hkey, by decide⟩)
  rw [firstLine, otherLines, hplain, List.headD_cons, List.tail_cons, ← stripCr_append _ _ (by decide)]
  simpa using hkeyed

theorem firstLine_of_not_mem {value : Text} (h : '\n' ∉ value) : firstLine value = stripCr value := by
  rw [firstLine, lines_append _ _ h, List.headD_cons]

theorem otherLines_of_not_mem {value : Text} (h : '\n' ∉ value) : otherLines value = [] := by
  rw [otherLines, lines_append _ _ h, List.tail_cons]
  rfl

/-- The lines behind the header. -/
def replLines (volume : Text) (sizeBytes : Option UInt64) (snapshot : Text) (base : Option Text) :
    List Text :=
  (("volume".toList ++ '=' :: firstLine volume) :: otherLines volume) ++
    (("size".toList ++ '=' :: sizeBytes.elim [] writeU64) ::
    (("snapshot".toList ++ '=' :: firstLine snapshot) :: otherLines snapshot) ++
    (("base".toList ++ '=' :: firstLine (base.getD [])) :: otherLines (base.getD [])))

theorem lines_encodeReplStream (volume : Text) (sizeBytes : Option UInt64) (snapshot : Text)
    (base : Option Text) :
    lines (encodeReplStream volume sizeBytes snapshot base) =
      replHeader :: replLines volume sizeBytes snapshot base := by
  have hsize : '\n' ∉ sizeBytes.elim [] writeU64 ∧ '\r' ∉ sizeBytes.elim [] writeU64 := by
    cases sizeBytes with
    | none => exact ⟨List.not_mem_nil, List.not_mem_nil⟩
    | some n => exact ⟨not_mem_writeU64 (by decide), not_mem_writeU64 (by decide)⟩
  -- every line break of the format, so that the values are peeled off one after the other
  have hshape : encodeReplStream volume sizeBytes snapshot base =
      replHeader ++ '\n' :: (("volume".toList ++ '=' :: volume) ++ '\n' ::
        (("size".toList ++ '=' :: sizeBytes.elim [] writeU64) ++ '\n' ::
        (("snapshot".toList ++ '=' :: snapshot) ++ '\n' ::
        (("base".toList ++ '=' :: base.getD []) ++ ['\n'])))) := by
    simp [encodeReplStream]
  rw [hshape, lines_append _ _ (by decide), lines_append_break, lines_append_break ("size".toList ++ _),
    lines_append_break ("snapshot".toList ++ _), lines_keyed (by decide), lines_keyed (by decide),
    lines_keyed (by decide), lines_keyed (by decide), firstLine_of_not_mem hsize.1,
    otherLines_of_not_mem hsize.1, stripCr_of_not_mem hsize.2,
    stripCr_of_not_mem (show '\r' ∉ replHeader by decide)]
  rfl

theorem spelled_keyed (key k value : Text) (ls : List Text) (hk : '=' ∉ k) :
    spelled key ((k ++ '=' :: value) :: ls) = (if k = key then [value] else []) ++ spelled key ls := by
  rw [← List.singleton_append, spelled_append, spelled_singleton, splitOnce_append hk]

/-- No value that is spelled holds a line break. -/
theorem not_mem_of_mem_spelled {key v : Text} {ls : List Text} (hls : ∀ l ∈ ls, '\n' ∉ l)
    (hv : v ∈ spelled key ls) : '\n' ∉ v := by
  obtain ⟨line, hline, hvalue⟩ := List.mem_filterMap.mp hv
  unfold valueOf at hvalue
  split at hvalue
  · cases hvalue
  · next k value hsplit =>
    split at hvalue
    · cases hvalue
      obtain ⟨rfl, -⟩ := splitOnce_exact hsplit
      intro hmem
      exact hls _ hline (List.mem_append_right k (List.mem_cons_of_mem _ hmem))
    · cases hvalue

theorem decodeReplStream_eq_ok {volume snapshot : Text} {sizeBytes : Option UInt64}
    {base : Option Text} {r : MemReplStream} :
    decodeReplStream debug (encodeReplStream volume sizeBytes snapshot base) = .ok r ↔
      SizesParse (replLines volume sizeBytes snapshot base) ∧
        ({} : ReplFields).after (replLines volume sizeBytes snapshot base) =
          ⟨r.sizeBytes, some r.snapshot, r.base⟩ := by
  unfold decodeReplStream
  rw [lines_encodeReplStream]
  dsimp only
  rw [if_pos rfl]
  constructor
  · intro h
    obtain ⟨fields, hfields, h⟩ := ok_of_bind h
    rw [← @foldlM_readLine debug, hfields]
    split at h
    · cases h
    · next hsnapshot =>
      cases h
      rw [← hsnapshot]
  · intro h
    rw [← @foldlM_readLine debug] at h
    rw [h]
    rfl

section Values

variable (volume : Text) (sizeBytes : Option UInt64) {snapshot : Text} {base : Option Text}
  (hsnapshot : '\n' ∉ snapshot) (hbase : '\n' ∉ base.getD [])

include hsnapshot hbase

theorem spelled_replLines (key : Text) :
    spelled key (replLines volume sizeBytes snapshot base) =
      (if "volume".toList = key then [firstLine volume] else []) ++ spelled key (otherLines volume) ++
        ((if "size".toList = key then [sizeBytes.elim [] writeU64] else []) ++
        ((if "snapshot".toList = key then [stripCr snapshot] else []) ++
        if "base".toList = key then [stripCr (base.getD [])] else [])) := by
  unfold replLines
  rw [otherLines_of_not_mem hsnapshot, otherLines_of_not_mem hbase, firstLine_of_not_mem hsnapshot,
    firstLine_of_not_mem hbase, spelled_append, spelled_keyed _ _ _ _ (by decide), List.cons_append,
    List.singleton_append, spelled_keyed _ _ _ _ (by decide), spelled_keyed _ _ _ _ (by decide),
    spelled_keyed _ _ _ _ (by decide), show spelled key [] = [] from rfl, List.append_nil]

theorem given_size_replLines :
    given "size".toList (replLines volume sizeBytes snapshot base) =
      given "size".toList (otherLines volume) ++ (sizeBytes.map writeU64).toList := by
  unfold given
  rw [spelled_replLines volume sizeBytes hsnapshot hbase]
  cases sizeBytes with
  | none => simp
  | some n => simp [writeU64_ne_nil]

theorem given_base_replLines :
    given "base".toList (replLines volume sizeBytes snapshot base) =
      given "base".toList (otherLines volume) ++ [stripCr (base.getD [])].filter (· ≠ []) := by
  unfold given
  rw [spelled_replLines volume sizeBytes hsnapshot hbase]
  simp

theorem spelled_snapshot_replLines :
    spelled "snapshot".toList (replLines volume sizeBytes snapshot base) =
      spelled "snapshot".toList (otherLines volume) ++ [stripCr snapshot] := by
  rw [spelled_replLines volume sizeBytes hsnapshot hbase]
  simp

theorem sizesParse_replLines :
    SizesParse (replLines volume sizeBytes snapshot base) ↔ SizesParse (otherLines volume) := by
  unfold SizesParse
  rw [given_size_replLines volume sizeBytes hsnapshot hbase, List.forall_mem_append]
  refine and_iff_left ?_
  cases sizeBytes with
  | none => exact fun v hv => (List.not_mem_nil hv).elim
  | some n =>
    intro v hv
    rw [List.mem_singleton.mp hv, parseU64_writeU64]
    rfl

/-- What is read when only the volume's name has line breaks. -/
theorem after_replLines :
    ({} : ReplFields).after (replLines volume sizeBytes snapshot base) =
      { sizeBytes := sizeBytes.or ((given "size".toList (otherLines volume)).filterMap parseU64).getLast?
        snapshot := some (stripCr snapshot)
        base := ([stripCr (base.getD [])].filter (· ≠ [])).getLast?.or
          (given "base".toList (otherLines volume)).getLast? } := by
  unfold ReplFields.after
  rw [given_size_replLines volume sizeBytes hsnapshot hbase,
    given_base_replLines volume sizeBytes hsnapshot hbase,
    spelled_snapshot_replLines volume sizeBytes hsnapshot hbase, List.filterMap_append]
  simp only [List.getLast?_append, Option.or_none, List.getLast?_singleton, Option.some_or]
  cases sizeBytes with
  | none => rfl
  | some n => simp [parseU64_writeU64]

end Values

/-! ## What is read back -/

/-- Names without line breaks come back as they were sent; an empty base is none. -/
theorem decodeReplStream_encodeReplStream {volume snapshot : Text} {sizeBytes : Option UInt64}
    {base : Option Text} (hvolume : '\n' ∉ volume) (hsnapshot : '\n' ∉ snapshot ∧ '\r' ∉ snapshot)
    (hbase : ∀ b ∈ base, b ≠ [] ∧ '\n' ∉ b ∧ '\r' ∉ b) :
    decodeReplStream debug (encodeReplStream volume sizeBytes snapshot base) =
      .ok ⟨sizeBytes, snapshot, base⟩ := by
  have hline : '\n' ∉ base.getD [] ∧ '\r' ∉ base.getD [] := by
    cases base with
    | none => exact ⟨List.not_mem_nil, List.not_mem_nil⟩
    | some b => exact (hbase b rfl).2
  rw [decodeReplStream_eq_ok, sizesParse_replLines volume sizeBytes hsnapshot.1 hline.1,
    after_replLines volume sizeBytes hsnapshot.1 hline.1, otherLines_of_not_mem hvolume,
    stripCr_of_not_mem hsnapshot.2, stripCr_of_not_mem hline.2]
  have hnone : ∀ key, given key [] = [] := fun _ => rfl
  refine ⟨fun v hv => (List.not_mem_nil hv).elim, ?_⟩
  rw [hnone, hnone]
  cases base with
  | none => simp
  | some b => simp [(hbase b rfl).1]

/-- The names that a descriptor carries unharmed. A snapshot or a base is one line; a line break in
the name of the volume spells lines of its own, which may not set what the descriptor leaves out. A
base that is one carriage return is lost with its line break, so that only the volume's lines can
spell it. -/
structure PlainNames (volume : Text) (sizeBytes : Option UInt64) (snapshot : Text)
    (base : Option Text) : Prop where
  snapshotLine : '\n' ∉ snapshot ∧ snapshot.getLast? ≠ some '\r'
  baseLine : ∀ b ∈ base, '\n' ∉ b ∧ (b.getLast? = some '\r' →
    b = ['\r'] ∧ (given "base".toList (otherLines volume)).getLast? = some b)
  noBase : base = none → given "base".toList (otherLines volume) = []
  sizes : SizesParse (otherLines volume)
  noSize : sizeBytes = none → given "size".toList (otherLines volume) = []

/-- The size is the one that was sent if the volume spells none where none was sent. -/
theorem or_sizes_eq_self_iff {sizeBytes : Option UInt64} {ls : List Text} (h : SizesParse ls) :
    sizeBytes.or ((given "size".toList ls).filterMap parseU64).getLast? = sizeBytes ↔
      (sizeBytes = none → given "size".toList ls = []) := by
  cases sizeBytes with
  | some n => simp
  | none =>
    rw [Option.none_or, List.getLast?_eq_none_iff, List.filterMap_eq_nil_iff]
    constructor
    · intro hnone _
      refine List.eq_nil_iff_forall_not_mem.mpr fun v hv => ?_
      have hsome := h v hv
      rw [hnone v hv] at hsome
      cases hsome
    · intro hnil v hv
      rw [hnil rfl] at hv
      cases hv

theorem stripCr_eq_nil_iff {line : Text} (h : line ≠ []) : stripCr line = [] ↔ line = ['\r'] := by
  constructor
  · intro hnil
    unfold stripCr at hnil
    split at hnil
    · next hlast =>
      have hsplit := List.dropLast_append_getLast h
      rw [hnil, List.nil_append] at hsplit
      rw [List.getLast?_eq_some_getLast h, Option.some_inj] at hlast
      rw [← hsplit, hlast]
    · exact absurd hnil h
  · rintro rfl
    rfl

/-- The base is the one that was sent. -/
theorem or_bases_eq_self_iff {base : Option Text} (hbase : ∀ b ∈ base, b ≠ []) (ls : List Text) :
    ([stripCr (base.getD [])].filter (· ≠ [])).getLast?.or (given "base".toList ls).getLast? = base ↔
      (∀ b ∈ base, b.getLast? = some '\r' →
        b = ['\r'] ∧ (given "base".toList ls).getLast? = some b) ∧
      (base = none → given "base".toList ls = []) := by
  cases base with
  | none =>
    rw [Option.getD_none, show stripCr [] = [] from rfl]
    simp
  | some b =>
    have hb := hbase b rfl
    rw [Option.getD_some]
    by_cases hnil : stripCr b = []
    · have hcr := (stripCr_eq_nil_iff hb).mp hnil
      subst hcr
      simp [hnil]
    · simp only [List.filter_cons, hnil, ne_eq, not_false_eq_true, decide_true, if_true,
        List.filter_nil, List.getLast?_singleton, Option.some_or, Option.some_inj,
        stripCr_eq_self_iff, reduceCtorEq, false_implies, and_true, Option.mem_some_iff,
        forall_eq']
      constructor
      · exact fun hlast h => absurd h hlast
      · intro h hlast
        exact hnil ((stripCr_eq_nil_iff hb).mpr (h hlast).1)

/-- A descriptor is read back as it was written, exactly for plain names. -/
theorem repl_stream_round_trip {volume snapshot : Text} {sizeBytes : Option UInt64}
    {base : Option Text} (hbase : ∀ b ∈ base, b ≠ []) :
    decodeReplStream debug (encodeReplStream volume sizeBytes snapshot base) =
        .ok ⟨sizeBytes, snapshot, base⟩ ↔
      PlainNames volume sizeBytes snapshot base := by
  rw [decodeReplStream_eq_ok]
  have hlines : ∀ l ∈ replLines volume sizeBytes snapshot base, '\n' ∉ l := by
    intro l hl
    refine not_mem_of_mem_lines (s := encodeReplStream volume sizeBytes snapshot base) ?_
    rw [lines_encodeReplStream]
    exact List.mem_cons_of_mem _ hl
  have hgetD : (∀ b ∈ base, '\n' ∉ b) → '\n' ∉ base.getD [] := by
    cases base with
    | none => exact fun _ => List.not_mem_nil
    | some b => exact fun h => h b rfl
  -- what is read, once the snapshot and the base are known to be one line each
  have hexact : '\n' ∉ snapshot → (∀ b ∈ base, '\n' ∉ b) →
      ((SizesParse (replLines volume sizeBytes snapshot base) ∧
          ({} : ReplFields).after (replLines volume sizeBytes snapshot base) =
            ⟨sizeBytes, some snapshot, base⟩) ↔
        PlainNames volume sizeBytes snapshot base) := by
    intro hsnapshot hb
    rw [sizesParse_replLines volume sizeBytes hsnapshot (hgetD hb),
      after_replLines volume sizeBytes hsnapshot (hgetD hb), ReplFields.mk.injEq, Option.some_inj,
      stripCr_eq_self_iff, or_bases_eq_self_iff hbase]
    constructor
    · rintro ⟨hsizes, hsize, hlast, hcr, hnone⟩
      exact ⟨⟨hsnapshot, hlast⟩, fun b hmem => ⟨hb b hmem, hcr b hmem⟩, hnone, hsizes,
        (or_sizes_eq_self_iff hsizes).mp hsize⟩
    · intro h
      exact ⟨h.sizes, (or_sizes_eq_self_iff h.sizes).mpr h.noSize, h.snapshotLine.2,
        fun b hmem => (h.baseLine b hmem).2, h.noBase⟩
  constructor
  · intro h
    have hfields := h.2
    unfold ReplFields.after at hfields
    rw [ReplFields.mk.injEq, Option.or_none, Option.or_none, Option.or_none] at hfields
    obtain ⟨-, hread, hbases⟩ := hfields
    refine (hexact ?_ ?_).mp h
    · exact not_mem_of_mem_spelled hlines (List.mem_of_getLast? hread)
    · rintro b rfl
      exact not_mem_of_mem_spelled hlines (List.mem_of_mem_filter (List.mem_of_getLast? hbases))
  · intro h
    exact (hexact h.snapshotLine.1 fun b hmem => (h.baseLine b hmem).1).mpr h

/-- The name of a volume may spell a size where one is sent. -/
theorem repl_stream_round_trip_spelled :
    PlainNames "v\nsize=7".toList (some 9) "s".toList (some "b".toList) ∧
      decodeReplStream String.ofList
          (encodeReplStream "v\nsize=7".toList (some 9) "s".toList (some "b".toList)) =
        .ok ⟨some 9, "s".toList, some "b".toList⟩ := by
  have hplain : PlainNames "v\nsize=7".toList (some 9) "s".toList (some "b".toList) := by
    refine ⟨by decide, ?_, ?_, ?_, ?_⟩
    · rintro b ⟨⟩
      exact ⟨by decide, fun h => absurd h (by decide)⟩
    · intro h
      cases h
    · unfold SizesParse
      decide
    · intro h
      cases h
  exact ⟨hplain, (repl_stream_round_trip (by decide)).mpr hplain⟩

/-- A snapshot whose name has two lines comes back as the first of them, and a volume's name can spell
a base that was not sent. -/
theorem repl_stream_misread :
    decodeReplStream String.ofList (encodeReplStream "v".toList none "a\nb".toList none) =
        .ok ⟨none, "a".toList, none⟩ ∧
      decodeReplStream String.ofList (encodeReplStream "v\nbase=b".toList none "s".toList none) =
        .ok ⟨none, "s".toList, some "b".toList⟩ :=
  ⟨rfl, rfl⟩

end NessieStore
