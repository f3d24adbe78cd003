import NessieStore.Lib.Program
import NessieStore.Lib.Split
import NessieStore.Reapi.Boundary

/-!
# Which resource names are read

The documentation of `resource.rs` gives two forms of a ByteStream resource name, for reading and for
uploading (`Documented`). `ResourceName::parse` does not follow them from the front: it looks for the
first segment `uploads`, or else `blobs`, and reads what stands behind it (`Accepted`, which is all
that the parser does, `parse_eq_ok_iff`).

Every documented name is read, and as what it says. More is read than is documented: names with
segments behind the size of a read, with a plus sign before the size, with an empty upload id, or with
a segment `blobs` in the instance of an upload (`Misread`), and nothing else.
-/

set_option autoImplicit false

namespace NessieStore.Reapi.ResourceName

open Lib

/-- Segments with slashes between. -/
def join (segs : List Text) : Text := ['/'].intercalate segs

/-! ## The documented names -/

/-- `{inst}/{body}`, or the body alone where the instance is empty. -/
def Behind (inst body s : Text) : Prop := s = inst ++ '/' :: body ∨ inst = [] ∧ s = body

/-- No segment of an instance is a marker. -/
def Plain (inst : Text) : Prop :=
  ∀ seg ∈ inst.splitOn '/', seg ≠ "blobs".toList ∧ seg ≠ "uploads".toList

/-- The grammar of the documentation. -/
inductive Documented (s : Text) : ResourceName → Prop
  | read {inst hash n : Text} {size : UInt64}
      (form : Behind inst (join ["blobs".toList, hash, n]) s) (plain : Plain inst)
      (hhash : isHash hash = true) (hsize : IsDecimal n size) :
      Documented s (.read inst hash size)
  | write {inst uuid hash n tail : Text} {size : UInt64}
      (form : Behind inst (join ["uploads".toList, uuid, "blobs".toList, hash, n] ++ tail) s)
      (plain : Plain inst) (huuid : uuid ≠ [] ∧ '/' ∉ uuid) (hhash : isHash hash = true)
      (hsize : IsDecimal n size) (htail : tail = [] ∨ ∃ rest, tail = '/' :: rest) :
      Documented s (.write inst uuid hash size)

/-! ## What the parser accepts -/

/-- The segments around the first `uploads`, or around the first `blobs` where there is none. -/
inductive Accepted (segs : List Text) : ResourceName → Prop
  | read {inst rest : List Text} {hash n : Text} {size : UInt64}
      (hsegs : segs = inst ++ "blobs".toList :: hash :: n :: rest)
      (huploads : "uploads".toList ∉ segs) (hinst : "blobs".toList ∉ inst)
      (hhash : isHash hash = true) (hsize : parseU64 n = some size) :
      Accepted segs (.read (join inst) hash size)
  | write {inst rest : List Text} {uuid hash n : Text} {size : UInt64}
      (hsegs : segs = inst ++ "uploads".toList :: uuid :: "blobs".toList :: hash :: n :: rest)
      (hinst : "uploads".toList ∉ inst) (hhash : isHash hash = true)
      (hsize : parseU64 n = some size) : Accepted segs (.write (join inst) uuid hash size)

/-- Names that are read though they are not documented. -/
inductive Misread (segs : List Text) : Prop
  /-- A read with more segments behind the size, or a plus sign before it. -/
  | read {inst rest : List Text} {hash n : Text} {size : UInt64}
      (hsegs : segs = inst ++ "blobs".toList :: hash :: n :: rest)
      (huploads : "uploads".toList ∉ segs) (hinst : "blobs".toList ∉ inst)
      (hhash : isHash hash = true) (hsize : parseU64 n = some size)
      (hwrong : rest ≠ [] ∨ n.head? = some '+')
  /-- An upload with `blobs` in its instance, an empty id, or a plus sign before the size. -/
  | write {inst rest : List Text} {uuid hash n : Text} {size : UInt64}
      (hsegs : segs = inst ++ "uploads".toList :: uuid :: "blobs".toList :: hash :: n :: rest)
      (hinst : "uploads".toList ∉ inst) (hhash : isHash hash = true)
      (hsize : parseU64 n = some size)
      (hwrong : "blobs".toList ∈ inst ∨ uuid = [] ∨ n.head? = some '+')

section Parse

variable {debug : Text → String}

theorem parseHash_eq_ok_iff {s hash : Text} :
    parseHash debug s = .ok hash ↔ s = hash ∧ isHash hash = true := by
  unfold parseHash
  split
  · next h =>
    rw [Except.ok.injEq]
    exact ⟨fun heq => ⟨heq, heq ▸ h⟩, And.left⟩
  · next h => exact iff_of_false (by simp) fun ⟨heq, hhash⟩ => h (heq ▸ hhash)

theorem parseSize_eq_ok_iff {s : Text} {size : UInt64} :
    parseSize debug s = .ok size ↔ parseU64 s = some size := by
  unfold parseSize
  split
  · next n h => rw [h, Except.ok.injEq, Option.some.injEq]
  · next h => simp [h]

/-- Segments are counted from a marker. -/
theorem segment_eq_ok_iff {front back : List Text} {w : Text} {i : Nat} {missing : String} {s : Text} :
    segment (front ++ w :: back) (front.length + (i + 1)) missing = .ok s ↔ back[i]? = some s := by
  have hplace : (front ++ w :: back)[front.length + (i + 1)]? = back[i]? := by
    rw [List.getElem?_append_right (Nat.le_add_right _ _), Nat.add_sub_cancel_left,
      List.getElem?_cons_succ]
  unfold segment
  rw [hplace]
  split
  · next s' h => rw [h, Except.ok.injEq, Option.some.injEq]
  · next h => simp [h]

theorem parseRead_eq_ok_iff {inst back : List Text} {w : Text} {r : ResourceName} :
    parseRead debug (inst ++ w :: back) inst.length = .ok r ↔
      ∃ hash n rest size, back = hash :: n :: rest ∧ isHash hash = true ∧ parseU64 n = some size ∧
        r = .read (join inst) hash size := by
  constructor
  · intro h
    obtain ⟨hash, hfirst, h⟩ := ok_of_bind h
    obtain ⟨n, hsecond, h⟩ := ok_of_bind h
    obtain ⟨hash', hhash, h⟩ := ok_of_bind h
    obtain ⟨size, hsize, h⟩ := ok_of_bind h
    cases h
    obtain ⟨rfl, hhash⟩ := parseHash_eq_ok_iff.mp hhash
    rw [segment_eq_ok_iff] at hfirst
    have hsecond : back[1]? = some n := segment_eq_ok_iff.mp hsecond
    match back, hfirst, hsecond with
    | _ :: _ :: rest, rfl, rfl =>
      exact ⟨_, _, rest, size, rfl, hhash, parseSize_eq_ok_iff.mp hsize, by
        rw [join, List.take_left]⟩
  · rintro ⟨hash, n, rest, size, rfl, hhash, hsize, rfl⟩
    have hfirst : ∀ m, segment (inst ++ w :: hash :: n :: rest) (inst.length + 1) m = .ok hash :=
      fun m => segment_eq_ok_iff.mpr rfl
    have hsecond : ∀ m, segment (inst ++ w :: hash :: n :: rest) (inst.length + 2) m = .ok n :=
      fun m => segment_eq_ok_iff.mpr rfl
    simp only [parseRead, hfirst, hsecond, parseHash_eq_ok_iff.mpr ⟨rfl, hhash⟩,
      parseSize_eq_ok_iff.mpr hsize, List.take_left, bind, Except.bind, pure, Except.pure, join]

theorem parseWrite_eq_ok_iff {inst back : List Text} {w : Text} {r : ResourceName} :
    parseWrite debug (inst ++ w :: back) inst.length = .ok r ↔
      ∃ uuid hash n rest size, back = uuid :: "blobs".toList :: hash :: n :: rest ∧
        isHash hash = true ∧ parseU64 n = some size ∧ r = .write (join inst) uuid hash size := by
  constructor
  · intro h
    obtain ⟨uuid, hfirst, h⟩ := ok_of_bind h
    obtain ⟨marker, hsecond, h⟩ := ok_of_bind h
    split at h
    · cases h
    split at h
    · cases h
    next hmarker =>
    obtain ⟨hash, hthird, h⟩ := ok_of_bind h
    obtain ⟨n, hfourth, h⟩ := ok_of_bind h
    obtain ⟨hash', hhash, h⟩ := ok_of_bind h
    obtain ⟨size, hsize, h⟩ := ok_of_bind h
    cases h
    obtain ⟨rfl, hhash⟩ := parseHash_eq_ok_iff.mp hhash
    have hfirst : back[0]? = some uuid := segment_eq_ok_iff.mp hfirst
    have hsecond : back[1]? = some marker := segment_eq_ok_iff.mp hsecond
    have hthird : back[2]? = some hash := segment_eq_ok_iff.mp hthird
    have hfourth : back[3]? = some n := segment_eq_ok_iff.mp hfourth
    match back, hfirst, hsecond, hthird, hfourth with
    | _ :: _ :: _ :: _ :: rest, rfl, rfl, rfl, rfl =>
      refine ⟨uuid, hash, n, rest, size, ?_, hhash, parseSize_eq_ok_iff.mp hsize, ?_⟩
      · rw [not_not.mp hmarker]
      · rw [join, List.take_left]
  · rintro ⟨uuid, hash, n, rest, size, rfl, hhash, hsize, rfl⟩
    have hseg : ∀ (i : Nat) (s : Text) (m : String),
        (uuid :: "blobs".toList :: hash :: n :: rest)[i]? = some s →
        segment (inst ++ w :: uuid :: "blobs".toList :: hash :: n :: rest)
          (inst.length + (i + 1)) m = .ok s := fun _ _ _ h => segment_eq_ok_iff.mpr h
    have hplain : ¬ "blobs".toList = "compressed-blobs".toList := by decide
    simp only [parseWrite, hseg 0 _ _ rfl, hseg 1 _ _ rfl, hseg 2 _ _ rfl, hseg 3 _ _ rfl, hplain,
      parseHash_eq_ok_iff.mpr ⟨rfl, hhash⟩, parseSize_eq_ok_iff.mpr hsize, List.take_left, bind,
      Except.bind, pure, Except.pure, join, if_false, ne_eq, not_true_eq_false]

/-- The parser accepts what `Accepted` says. -/
theorem parse_eq_ok_iff {s : Text} {r : ResourceName} :
    parse debug s = .ok r ↔ Accepted (s.splitOn '/') r := by
  unfold parse
  generalize s.splitOn '/' = segs
  dsimp only
  split
  · next up hup =>
    obtain ⟨inst, back, rfl, hinst, rfl⟩ := findIdx?_eq_some_iff_append.mp hup
    rw [parseWrite_eq_ok_iff]
    constructor
    · rintro ⟨uuid, hash, n, rest, size, rfl, hhash, hsize, rfl⟩
      exact .write rfl hinst hhash hsize
    · intro h
      cases h with
      | read hsegs huploads _ _ _ =>
        exact absurd (List.mem_append_right inst List.mem_cons_self) huploads
      | write hsegs hinst' hhash hsize =>
        obtain ⟨rfl, rfl⟩ := append_cons_inj hinst hinst' hsegs
        exact ⟨_, _, _, _, _, rfl, hhash, hsize, rfl⟩
  · next hnone =>
    have huploads := findIdx?_eq_none_iff_notMem.mp hnone
    split
    · next bp hbp =>
      obtain ⟨inst, back, rfl, hinst, rfl⟩ := findIdx?_eq_some_iff_append.mp hbp
      rw [parseRead_eq_ok_iff]
      constructor
      · rintro ⟨hash, n, rest, size, rfl, hhash, hsize, rfl⟩
        exact .read rfl huploads hinst hhash hsize
      · intro h
        cases h with
        | read hsegs _ hinst' hhash hsize =>
          obtain ⟨rfl, rfl⟩ := append_cons_inj hinst hinst' hsegs
          exact ⟨_, _, _, _, rfl, hhash, hsize, rfl⟩
        | write hsegs _ _ _ =>
          rw [hsegs] at huploads
          exact absurd (List.mem_append_right _ List.mem_cons_self) huploads
    · next hnone' =>
      have hblobs := findIdx?_eq_none_iff_notMem.mp hnone'
      have hrefused : ¬ Accepted segs r := by
        intro h
        cases h with
        | read hsegs _ _ _ _ =>
          rw [hsegs] at hblobs
          exact hblobs (List.mem_append_right _ List.mem_cons_self)
        | write hsegs _ _ _ =>
          rw [hsegs] at huploads
          exact huploads (List.mem_append_right _ List.mem_cons_self)
      split
      · exact iff_of_false (by simp) hrefused
      · exact iff_of_false (by simp) hrefused

end Parse

/-! ## The documented names by their segments -/

/-- An instance in front of a body is some segments in front of the body's. -/
theorem behind_iff {inst body s : Text} : Behind inst body s ∧ Plain inst ↔
    ∃ segs : List Text, s.splitOn '/' = segs ++ body.splitOn '/' ∧ join segs = inst ∧
      ∀ seg ∈ segs, seg ≠ "blobs".toList ∧ seg ≠ "uploads".toList := by
  constructor
  · rintro ⟨rfl | ⟨rfl, rfl⟩, hplain⟩
    · exact ⟨inst.splitOn '/', List.splitOn_append_cons_self inst body, List.intercalate_splitOn '/',
        hplain⟩
    · exact ⟨[], rfl, rfl, List.forall_mem_nil _⟩
  · rintro ⟨segs, hsplit, rfl, hplain⟩
    have hbody : ['/'].intercalate (body.splitOn '/') = body := List.intercalate_splitOn '/'
    by_cases hsegs : segs = []
    · subst hsegs
      have hs : s = body := by
        have hjoin : ['/'].intercalate (s.splitOn '/') = s := List.intercalate_splitOn '/'
        rw [← hjoin, hsplit, List.nil_append, hbody]
      refine ⟨.inr ⟨rfl, hs⟩, ?_⟩
      have hempty : ∀ seg ∈ [([] : Text)], seg ≠ "blobs".toList ∧ seg ≠ "uploads".toList := by decide
      exact hempty
    · obtain ⟨hs, hjoin, -⟩ := eq_of_splitOn_append hsegs (List.splitOn_ne_nil '/' body) hsplit
      rw [hbody] at hs
      refine ⟨.inl hs, ?_⟩
      rw [Plain, join, hjoin]
      exact hplain

theorem splitOn_join {segs : List Text} (hsegs : segs ≠ []) (h : ∀ seg ∈ segs, '/' ∉ seg) :
    (join segs).splitOn '/' = segs := List.splitOn_intercalate '/' h hsegs

theorem slash_notMem_of_isHash {hash : Text} (h : isHash hash = true) : '/' ∉ hash := by
  intro hmem
  have hlower := List.all_eq_true.mp (of_decide_eq_true h).2 '/' hmem
  exact absurd hlower (by decide)

theorem ne_of_isHash {hash : Text} (h : isHash hash = true) : hash ≠ "uploads".toList := by
  rintro rfl
  exact absurd h (by decide)

theorem notMem_of_isDecimal {n : Text} {size : UInt64} (h : IsDecimal n size) {c : Char}
    (hc : c.isDigit = false) : c ∉ n := fun hmem => by
  rw [h.isDigit c hmem] at hc
  cases hc

section Segments

variable {s : Text}

theorem documented_read_iff {inst hash : Text} {size : UInt64} :
    Documented s (.read inst hash size) ↔ ∃ (segs : List Text) (n : Text),
      s.splitOn '/' = segs ++ ["blobs".toList, hash, n] ∧ join segs = inst ∧
        (∀ seg ∈ segs, seg ≠ "blobs".toList ∧ seg ≠ "uploads".toList) ∧ isHash hash = true ∧
        IsDecimal n size := by
  have hbody : ∀ {n : Text}, isHash hash = true → IsDecimal n size →
      (join ["blobs".toList, hash, n]).splitOn '/' = ["blobs".toList, hash, n] := by
    intro n hhash hsize
    refine splitOn_join (List.cons_ne_nil _ _) ?_
    simp only [List.forall_mem_cons, List.not_mem_nil, false_implies, implies_true, and_true]
    exact ⟨by decide, slash_notMem_of_isHash hhash, notMem_of_isDecimal hsize (by decide)⟩
  constructor
  · intro h
    cases h with | read form plain hhash hsize =>
    obtain ⟨segs, hsplit, hjoin, hplain⟩ := behind_iff.mp ⟨form, plain⟩
    rw [hbody hhash hsize] at hsplit
    exact ⟨segs, _, hsplit, hjoin, hplain, hhash, hsize⟩
  · rintro ⟨segs, n, hsplit, hjoin, hplain, hhash, hsize⟩
    rw [← hbody hhash hsize] at hsplit
    obtain ⟨form, plain⟩ := behind_iff.mpr ⟨segs, hsplit, hjoin, hplain⟩
    exact .read form plain hhash hsize

theorem documented_write_iff {inst uuid hash : Text} {size : UInt64} :
    Documented s (.write inst uuid hash size) ↔ ∃ (segs rest : List Text) (n : Text),
      s.splitOn '/' = segs ++ "uploads".toList :: uuid :: "blobs".toList :: hash :: n :: rest ∧
        join segs = inst ∧ (∀ seg ∈ segs, seg ≠ "blobs".toList ∧ seg ≠ "uploads".toList) ∧
        uuid ≠ [] ∧ isHash hash = true ∧ IsDecimal n size := by
  have hbody : ∀ {n : Text}, '/' ∉ uuid → isHash hash = true → IsDecimal n size →
      (join ["uploads".toList, uuid, "blobs".toList, hash, n]).splitOn '/' =
        ["uploads".toList, uuid, "blobs".toList, hash, n] := by
    intro n huuid hhash hsize
    refine splitOn_join (List.cons_ne_nil _ _) ?_
    simp only [List.forall_mem_cons, List.not_mem_nil, false_implies, implies_true, and_true]
    exact ⟨by decide, huuid, by decide, slash_notMem_of_isHash hhash,
      notMem_of_isDecimal hsize (by decide)⟩
  constructor
  · intro h
    cases h with | write form plain huuid hhash hsize htail =>
    obtain ⟨huuid, hslash⟩ := huuid
    obtain ⟨segs, hsplit, hjoin, hplain⟩ := behind_iff.mp ⟨form, plain⟩
    rcases htail with rfl | ⟨rest, rfl⟩
    · rw [List.append_nil, hbody hslash hhash hsize] at hsplit
      exact ⟨segs, [], _, hsplit, hjoin, hplain, huuid, hhash, hsize⟩
    · rw [List.splitOn_append_cons_self, hbody hslash hhash hsize] at hsplit
      exact ⟨segs, rest.splitOn '/', _, hsplit, hjoin, hplain, huuid, hhash, hsize⟩
  · rintro ⟨segs, rest, n, hsplit, hjoin, hplain, huuid, hhash, hsize⟩
    have hpieces : ∀ seg ∈ s.splitOn '/', '/' ∉ seg := fun seg => notMem_of_mem_splitOn
    rw [hsplit] at hpieces
    have hslash : '/' ∉ uuid := hpieces uuid (by simp)
    -- what stands behind the size is the tail, behind a slash of its own
    by_cases hrest : rest = []
    · subst hrest
      rw [← hbody hslash hhash hsize, ← List.append_nil (join _)] at hsplit
      obtain ⟨form, plain⟩ := behind_iff.mpr ⟨segs, hsplit, hjoin, hplain⟩
      exact .write form plain ⟨huuid, hslash⟩ hhash hsize (.inl rfl)
    · have htail : (join rest).splitOn '/' = rest :=
        splitOn_join hrest fun seg hseg => hpieces seg (by simp [hseg])
      have hform : s.splitOn '/' = segs ++
          (join ["uploads".toList, uuid, "blobs".toList, hash, n] ++ '/' :: join rest).splitOn '/' := by
        rw [List.splitOn_append_cons_self, hbody hslash hhash hsize, htail, hsplit]
        rfl
      obtain ⟨form, plain⟩ := behind_iff.mpr ⟨segs, hform, hjoin, hplain⟩
      exact .write form plain ⟨huuid, hslash⟩ hhash hsize (.inr ⟨_, rfl⟩)

/-- Every documented name is accepted. -/
theorem Documented.accepted {r : ResourceName} (h : Documented s r) : Accepted (s.splitOn '/') r := by
  cases r with
  | read inst hash size =>
    obtain ⟨segs, n, hsplit, rfl, hplain, hhash, hsize⟩ := documented_read_iff.mp h
    refine .read hsplit ?_ ?_ hhash (parseU64_eq_some_iff.mpr (.inl hsize))
    · rw [hsplit, List.mem_append, not_or]
      refine ⟨fun hmem => (hplain _ hmem).2 rfl, ?_⟩
      simp only [List.mem_cons, List.not_mem_nil, or_false, not_or]
      refine ⟨by decide, (ne_of_isHash hhash).symm, ?_⟩
      rintro rfl
      exact notMem_of_isDecimal hsize (c := 'u') (by decide) (by decide)
    · exact fun hmem => (hplain _ hmem).1 rfl
  | write inst uuid hash size =>
    obtain ⟨segs, rest, n, hsplit, rfl, hplain, -, hhash, hsize⟩ := documented_write_iff.mp h
    exact .write hsplit (fun hmem => (hplain _ hmem).2 rfl) hhash
      (parseU64_eq_some_iff.mpr (.inl hsize))

theorem isDecimal_of_parseU64 {n : Text} {size : UInt64} (h : parseU64 n = some size)
    (hplus : n.head? ≠ some '+') : IsDecimal n size := by
  rcases parseU64_eq_some_iff.mp h with h | ⟨digits, rfl, -⟩
  · exact h
  · exact absurd rfl hplus

theorem head?_of_isDecimal {n : Text} {size : UInt64} (h : IsDecimal n size) :
    n.head? ≠ some '+' := fun hhead =>
  notMem_of_isDecimal h (by decide) (List.mem_of_mem_head? hhead)

/-- What is accepted and not misread is documented. -/
theorem Accepted.documented {r : ResourceName} (h : Accepted (s.splitOn '/') r)
    (hright : ¬ Misread (s.splitOn '/')) : Documented s r := by
  cases h with
  | @read inst rest hash n size hsegs huploads hinst hhash hsize =>
    have hform : ¬ (rest ≠ [] ∨ n.head? = some '+') :=
      fun hwrong => hright (.read hsegs huploads hinst hhash hsize hwrong)
    obtain ⟨hrest, hplus⟩ := not_or.mp hform
    obtain rfl := not_not.mp hrest
    refine documented_read_iff.mpr
      ⟨inst, n, hsegs, rfl, ?_, hhash, isDecimal_of_parseU64 hsize hplus⟩
    rw [hsegs] at huploads
    refine fun seg hseg => ⟨?_, ?_⟩
    · rintro rfl
      exact hinst hseg
    · rintro rfl
      exact huploads (List.mem_append_left _ hseg)
  | @write inst rest uuid hash n size hsegs hinst hhash hsize =>
    have hform : ¬ ("blobs".toList ∈ inst ∨ uuid = [] ∨ n.head? = some '+') :=
      fun hwrong => hright (.write hsegs hinst hhash hsize hwrong)
    obtain ⟨hblobs, hform⟩ := not_or.mp hform
    obtain ⟨huuid, hplus⟩ := not_or.mp hform
    refine documented_write_iff.mpr
      ⟨inst, rest, n, hsegs, rfl, ?_, huuid, hhash, isDecimal_of_parseU64 hsize hplus⟩
    refine fun seg hseg => ⟨?_, ?_⟩
    · rintro rfl
      exact hblobs hseg
    · rintro rfl
      exact hinst hseg

/-- What is misread is accepted as something that is not documented: the segments around a marker's
first place are given, so the name has no other form. -/
theorem Misread.undocumented (h : Misread (s.splitOn '/')) :
    ∃ r, Accepted (s.splitOn '/') r ∧ ¬ Documented s r := by
  cases h with
  | @read inst rest hash n size hsegs huploads hinst hhash hsize hwrong =>
    refine ⟨_, .read hsegs huploads hinst hhash hsize, fun hdoc => ?_⟩
    obtain ⟨segs, n', hsplit, -, hplain, -, hsize'⟩ := documented_read_iff.mp hdoc
    obtain ⟨-, hback⟩ := append_cons_inj hinst (fun hmem => (hplain _ hmem).1 rfl)
      (hsegs.symm.trans hsplit)
    cases hback
    rcases hwrong with hrest | hplus
    · exact hrest rfl
    · exact head?_of_isDecimal hsize' hplus
  | @write inst rest uuid hash n size hsegs hinst hhash hsize hwrong =>
    refine ⟨_, .write hsegs hinst hhash hsize, fun hdoc => ?_⟩
    obtain ⟨segs, rest', n', hsplit, -, hplain, huuid, -, hsize'⟩ := documented_write_iff.mp hdoc
    obtain ⟨rfl, hback⟩ := append_cons_inj hinst (fun hmem => (hplain _ hmem).2 rfl)
      (hsegs.symm.trans hsplit)
    cases hback
    rcases hwrong with hblobs | hempty | hplus
    · exact (hplain _ hblobs).1 rfl
    · exact huuid hempty
    · exact head?_of_isDecimal hsize' hplus

end Segments

/-- The parser reads exactly the documented names, each as what it says, on every name that is not
misread; and on no other. -/
theorem documented_names_read (debug : Text → String) (s : Text) :
    (∀ r, parse debug s = .ok r ↔ Documented s r) ↔ ¬ Misread (s.splitOn '/') := by
  constructor
  · intro h hwrong
    obtain ⟨r, haccepted, hdoc⟩ := hwrong.undocumented
    exact hdoc ((h r).mp (parse_eq_ok_iff.mpr haccepted))
  · intro hright r
    rw [parse_eq_ok_iff]
    exact ⟨fun h => h.documented hright, Documented.accepted⟩

/-- A read with a segment behind its size is read as if it ended there. -/
theorem read_past_size :
    let hash : Text := List.replicate 64 'a'
    let s : Text := join ["blobs".toList, hash, "1".toList, "x".toList]
    parse (fun _ => "") s = .ok (.read [] hash 1) ∧ ¬ Documented s (.read [] hash 1) := by
  intro hash s
  have hsplit : s.splitOn '/' = ["blobs".toList, hash, "1".toList, "x".toList] := by decide +kernel
  constructor
  · have hform : s.splitOn '/' = [] ++ "blobs".toList :: hash :: "1".toList :: ["x".toList] := hsplit
    refine parse_eq_ok_iff.mpr (.read hform ?_ List.not_mem_nil (by decide +kernel) (by decide +kernel))
    rw [hsplit]
    decide +kernel
  · intro h
    obtain ⟨segs, n, hsegs, -, -, -, hsize⟩ := documented_read_iff.mp h
    have hlast := congrArg List.getLast? (hsegs.symm.trans hsplit)
    simp only [List.getLast?_append, List.getLast?_cons_cons, List.getLast?_singleton,
      Option.some_or, Option.some.injEq] at hlast
    exact notMem_of_isDecimal hsize (c := 'x') (by decide) (hlast ▸ by decide)

end NessieStore.Reapi.ResourceName
