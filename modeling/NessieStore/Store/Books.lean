import NessieStore.Store.System

/-!
# The `write_only` books stay true across quarantine

`put` and `put_keyed` calls on a `write_only` store over a disk, beside calls of `quarantine` and
files going bad. In every state `committed` is the sum of the charges and equals its mirror, every
quarantined file is charged at its length, and a live blob admitted with any bytes is charged once
its writers have returned.

That holds as long as no quarantine fails after its rename. `DiskCas::quarantine` stats the file it
has moved, and on an error of that call the store books nothing: the file lies in the quarantine
uncharged, its digest is still charged, and a re-put takes the charge over (`moved_file_uncounted`).

The charge of a live blob is the hard part: a quarantine takes a digest's charge away while writers of
that digest are running. A gated writer that has published will still charge. An ungated re-put never
will, so it must not publish after the charge has gone: it is registered, and `quarantine` defers to it.

An observer keeps the size each digest was last admitted with (its length on disk at startup, then
the length of each content published) and the length each quarantined file had when it was moved.
-/

set_option autoImplicit false

namespace NessieStore

open Lib

/-- What the observer remembers. -/
structure Seen where
  /-- The size each digest was last admitted with. -/
  admitted : Map Digest Nat
  /-- The length of each quarantined file when it was moved there. -/
  moved : Map QuarantineId Nat

/-- The observer of a store that opens: what it finds on disk counts as admitted and as moved. -/
def Seen.opening (s : CasStore) : Seen := ⟨s.state.accounted, s.state.quarantined⟩

def observe (H : HashFn) (x : Sys) (a : Act) (o : Seen) : Seen :=
  match a, x.publishing a with
  | .quarantine d stat, _ =>
    match x.store.inner.size d with
    | some n =>
      if (x.store.quarantine d stat).2.inner.has d then o
      else { o with moved := o.moved.insert ⟨d, x.store.inner.freeSlot d⟩ n }
    | none => o
  | _, some (d, bytes) =>
    if d.verify H bytes then { o with admitted := o.admitted.insert d bytes.length } else o
  | _, none => o

/-- Writes, quarantines, and files going bad. -/
def Act.keepsBooks : Act → Bool
  | .put | .putKeyed _ | .write _ _ | .quarantine _ _ | .release _ | .get _ | .corrupt _ _ => true
  | _ => false

/-- The quarantine fails after it has renamed the file. -/
def Act.statFails : Act → Bool
  | .quarantine _ stat => stat.isSome
  | _ => false

def WithQuarantine (used : Bytes → Prop) (x : Sys × Seen) (a : Act) : Prop :=
  a.keepsBooks = true ∧ a.statFails = false ∧ ∀ p ∈ x.1.publishing a, used p.2

instance (used : Bytes → Prop) [DecidablePred used] (x : Sys × Seen) (a : Act) :
    Decidable (WithQuarantine used x a) :=
  inferInstanceAs (Decidable (_ ∧ _ ∧ _))

/-- `d` is charged, or a writer that has published it is about to charge it. -/
def Covered (x : Sys) (d : Digest) : Prop :=
  (∃ n, x.store.state.accounted.lookup d = some n) ∨
    ∃ p ∈ x.puts, ∃ src n, p = .keyed ⟨d, src, .published n⟩ ∧ 0 < n

section Invariant

variable (H : HashFn) (used : Bytes → Prop) (capacity : Nat)

/-- `d` is covered, or is the digest of the empty blob, which is never charged. -/
def Settled (x : Sys) (d : Digest) : Prop := Covered x d ∨ used [] ∧ d.verify H [] = true

/-- What a running write knows: an ungated one re-puts a settled digest. -/
def BookOk (x : Sys) : Putter → Prop
  | .keyed ⟨d, _, .ungated reg _ _⟩ => reg = true ∧ Settled H used x d
  | .keyed ⟨_, _, .gated got mine _⟩ | .keyed ⟨_, _, .added got mine _ _⟩
  | .keyed ⟨_, _, .loaded got mine _ _ _⟩ => got.length = mine
  | _ => True

structure BooksInv (x : Sys) (o : Seen) : Prop where
  mode : x.store.mode = .writeOnly capacity
  disk : x.store.inner.kind = .disk
  mirror : x.store.committed = x.store.state.committed
  books : x.store.state.committed =
    Map.total id x.store.state.accounted + Map.total id x.store.state.quarantined
  aside : ∀ id, x.store.state.quarantined.lookup id =
    (x.store.inner.quarantined.lookup id).map List.length
  moved : ∀ id, o.moved.lookup id = (x.store.inner.quarantined.lookup id).map List.length
  registered : x.Registered
  calls : ∀ p ∈ x.puts, BookOk H used x p
  cover : ∀ d, x.store.inner.has d = true → Covered x d ∨
    used [] ∧ d.verify H [] = true ∧ o.admitted.lookup d = some 0

end Invariant

variable {H : HashFn} {used : Bytes → Prop} {capacity : Nat} {x : Sys} {o : Seen}

theorem BookOk.mono {y : Sys} {p : Putter}
    (h : ∀ d src reg got eof, p = .keyed ⟨d, src, .ungated reg got eof⟩ → reg = true →
      Covered x d → Covered y d) (hp : BookOk H used x p) : BookOk H used y p := by
  cases p with
  | spooling got => trivial
  | failed e => trivial
  | keyed w =>
    obtain ⟨d, src, ph⟩ := w
    cases ph with
    | ungated reg got eof =>
      exact ⟨hp.1, hp.2.imp_left (h d src reg got eof rfl hp.1)⟩
    | _ => exact hp

/-- Covers survive when charges do and the moving write was not the one about to charge. -/
theorem Covered.set {i : Nat} {p p' : Putter} {s' : CasStore} {d : Digest}
    (hi : x.puts[i]? = some p)
    (hacc : ∀ n, x.store.state.accounted.lookup d = some n →
      ∃ n', s'.state.accounted.lookup d = some n')
    (hp : ∀ src n, p = .keyed ⟨d, src, .published n⟩ → 0 < n →
      ∃ n', s'.state.accounted.lookup d = some n')
    (h : Covered x d) : Covered { x with store := s', puts := x.puts.set i p' } d := by
  rcases h with ⟨n, hn⟩ | hex
  · exact .inl (hacc n hn)
  · by_cases hthis : ∃ src n, p = .keyed ⟨d, src, .published n⟩ ∧ 0 < n
    · obtain ⟨src, n, hpn, hn⟩ := hthis
      exact .inl (hp src n hpn hn)
    · exact .inr (exists_mem_set hi (fun h => absurd h hthis) hex)

namespace BooksInv

/-- A step that keeps the books, the blobs and the covers; a call that it brings is all right. -/
theorem of_same (h : BooksInv H used capacity x o) {y : Sys} (hb : SameBooks x.store y.store)
    (hreg : y.Registered) (hcov : ∀ d, Covered x d → Covered y d)
    (hcalls : ∀ p ∈ y.puts, BookOk H used x p) : BooksInv H used capacity y o where
  mode := hb.mode.trans h.mode
  disk := by rw [hb.inner]; exact h.disk
  mirror := by rw [hb.mirror, hb.committed, h.mirror]
  books := by rw [hb.committed, hb.accounted, hb.quarantined, h.books]
  aside := by rw [hb.inner, hb.quarantined]; exact h.aside
  moved := by rw [hb.inner]; exact h.moved
  registered := hreg
  calls := fun p hp => (hcalls p hp).mono fun d _ _ _ _ _ _ => hcov d
  cover := fun d hd => by
    rw [hb.inner] at hd
    exact (h.cover d hd).imp_left (hcov d)

/-- A call starts. -/
theorem begin (h : BooksInv H used capacity x o) {p : Putter} (hok : BookOk H used x p)
    (hreg : ∀ d, p.registered d = 0) :
    BooksInv H used capacity { x with puts := x.puts ++ [p] } o := by
  refine h.of_same (.rfl' _) (fun d => by simpa [hreg d] using h.registered d) ?_ ?_
  · rintro d (hacc | ⟨q, hq, hpub⟩)
    · exact .inl hacc
    · exact .inr ⟨q, List.mem_append_left _ hq, hpub⟩
  · exact List.forall_mem_append.mpr ⟨h.calls, List.forall_mem_singleton.mpr hok⟩

/-- A write moves on; the books and the blobs stay as they are. -/
theorem quiet (h : BooksInv H used capacity x o) {i : Nat} {p p' : Putter} {s' : CasStore}
    (hi : x.puts[i]? = some p) (hb : SameBooks x.store s')
    (hreg : Sys.Registered { x with store := s', puts := x.puts.set i p' })
    (hok : BookOk H used x p') (hpub : ∀ d src n, p ≠ .keyed ⟨d, src, .published n⟩) :
    BooksInv H used capacity { x with store := s', puts := x.puts.set i p' } o := by
  refine h.of_same hb hreg ?_ (forall_mem_set h.calls hok)
  exact fun d => Covered.set hi (fun n hn => ⟨n, by rw [hb.accounted]; exact hn⟩)
    fun src n hp => absurd hp (hpub d src n)

/-- A method that touches neither books nor blobs nor registrations. -/
theorem method (h : BooksInv H used capacity x o) {s' : CasStore} (hb : SameBooks x.store s')
    (hfast : ∀ d, s'.fast d = x.store.fast d) :
    BooksInv H used capacity { x with store := s' } o :=
  h.of_same hb (fun d => (hfast d).trans (h.registered d))
    (fun d hd => by simpa only [Covered, hb.accounted] using hd) h.calls

/-- A write lands: its digest is settled, or it has bytes and is about to charge them. -/
theorem land (h : BooksInv H used capacity x o) (hcf : H.CollisionFree used) {i : Nat} {d : Digest}
    {got : Bytes} {p p' : Putter} (hi : x.puts[i]? = some p) (hused : used got)
    (hv : d.verify H got = true)
    (hreg : Sys.Registered { x with store := x.store.land d got, puts := x.puts.set i p' })
    (hok : BookOk H used x p') (hpub : ∀ d' src n, p ≠ .keyed ⟨d', src, .published n⟩)
    (hcover : Settled H used x d ∨ ∃ src, p' = .keyed ⟨d, src, .published got.length⟩) :
    BooksInv H used capacity { x with store := x.store.land d got, puts := x.puts.set i p' }
      { o with admitted := o.admitted.insert d got.length } := by
  have hcov : ∀ d', Covered x d' →
      Covered { x with store := x.store.land d got, puts := x.puts.set i p' } d' :=
    fun d' => Covered.set hi (fun n hn => ⟨n, hn⟩) fun src n hp => absurd hp (hpub d' src n)
  exact {
    mode := h.mode
    disk := by simp only [CasStore.land, LocalCas.land_kind]; exact h.disk
    mirror := h.mirror
    books := h.books
    aside := by simp only [CasStore.land, LocalCas.land_quarantined]; exact h.aside
    moved := by simp only [CasStore.land, LocalCas.land_quarantined]; exact h.moved
    registered := hreg
    calls := forall_mem_set (fun q hq => (h.calls q hq).mono fun d _ _ _ _ _ _ => hcov d)
      (hok.mono fun d _ _ _ _ _ _ => hcov d)
    cover := by
      intro d' hd'
      rw [Map.lookup_insert_eq]
      by_cases hd : d' = d
      · subst hd
        rw [if_pos rfl]
        -- an empty content, landed or re-landed, is the one uncovered case
        have hempty : used [] → d'.verify H [] = true → got = [] := fun hu hv' =>
          Digest.verify_unique hcf hused hu hv hv'
        rcases hcover with (hc | ⟨hu, hv'⟩) | ⟨src, rfl⟩
        · exact .inl (hcov d' hc)
        · exact .inr ⟨hu, hv', by rw [hempty hu hv']; rfl⟩
        · by_cases h0 : 0 < got.length
          · exact .inl (.inr ⟨_, mem_set_of_getElem? hi, src, got.length, rfl, h0⟩)
          · have hnil : got = [] := List.eq_nil_of_length_eq_zero (by omega)
            subst hnil
            exact .inr ⟨hused, hv, rfl⟩
      · rw [if_neg hd]
        simp only [CasStore.land, LocalCas.has_land, hd, decide_false, Bool.false_or] at hd'
        exact (h.cover d' hd').imp_left (hcov d') }

/-- A published write charges its bytes. -/
theorem charge (h : BooksInv H used capacity x o) {i : Nat} {d : Digest} {src : Source} {mine : Nat}
    (hi : x.puts[i]? = some (.keyed ⟨d, src, .published mine⟩))
    (hreg : Sys.Registered { x with
      store := x.store.account d mine
      puts := x.puts.set i (.keyed ⟨d, src, .charged mine⟩) }) :
    BooksInv H used capacity { x with
      store := x.store.account d mine
      puts := x.puts.set i (.keyed ⟨d, src, .charged mine⟩) } o := by
  by_cases hfree : mine = 0 ∨ ∃ n, x.store.state.accounted.lookup d = some n
  · rw [CasStore.account_of_free hfree] at hreg ⊢
    refine h.of_same (.rfl' _) hreg (fun d' => ?_) (forall_mem_set h.calls trivial)
    refine Covered.set hi (fun n hn => ⟨n, hn⟩) fun src' n hp h0 => ?_
    cases hp
    exact hfree.resolve_left (by omega)
  · rw [not_or, not_exists] at hfree
    have hnone := Option.eq_none_iff_forall_ne_some.mpr hfree.2
    rw [CasStore.account_of_new hfree.1 hnone] at hreg ⊢
    have hcov : ∀ d', Covered x d' → Covered { x with
        store := { x.store with
          state := { x.store.state with
            committed := x.store.state.committed + mine
            accounted := x.store.state.accounted.insert d mine }
          committed := x.store.state.committed + mine }
        puts := x.puts.set i (.keyed ⟨d, src, .charged mine⟩) } d' := by
      refine fun d' => Covered.set hi (fun n hn => ?_) fun src' n hp h0 => ?_
      · simp only [Map.lookup_insert_eq]
        split
        · exact ⟨mine, rfl⟩
        · exact ⟨n, hn⟩
      · cases hp
        exact ⟨mine, Finmap.lookup_insert _⟩
    exact {
      mode := h.mode
      disk := h.disk
      mirror := rfl
      books := by
        have hbooks := h.books
        simp only [Map.total_insert_new hnone, id]
        omega
      aside := h.aside
      moved := h.moved
      registered := hreg
      calls := forall_mem_set (fun q hq => (h.calls q hq).mono fun d _ _ _ _ _ _ => hcov d) trivial
      cover := fun d' hd' => (h.cover d' hd').imp_left (hcov d') }

/-- A quarantine moves the file's charge with the file. No re-put of the digest is running, so no
write is left that counted on the charge. -/
theorem quarantine (h : BooksInv H used capacity x o) (d : Digest) :
    BooksInv H used capacity { x with store := (x.store.quarantine d none).2 }
      (observe H x (.quarantine d none) o) := by
  rcases x.store.quarantine_cases d none with hsame | ⟨hfast, bytes, hb, hq | ⟨hstat, -⟩⟩
  · have hseen : observe H x (.quarantine d none) o = o := by
      simp only [observe]
      split
      · next n hn => rw [hsame, LocalCas.has, hn]; rfl
      · rfl
    rw [hsame, hseen]
    exact h
  · have hseen : observe H x (.quarantine d none) o = { o with
        moved := o.moved.insert ⟨d, x.store.inner.freeSlot d⟩ bytes.length } := by
      simp only [observe, hq, CasStore.moveCharge, LocalCas.has_setAside, LocalCas.size, hb,
        Option.map_some]
      simp
    rw [hq, hseen]
    have hcov : ∀ d', d' ≠ d → ∀ y : Sys, y.puts = x.puts →
        y.store.state.accounted = x.store.state.accounted.erase d → Covered x d' → Covered y d' := by
      rintro d' hd y hputs hacc (⟨n, hn⟩ | hex)
      · exact .inl ⟨n, by rw [hacc, Map.lookup_erase_eq, if_neg hd]; exact hn⟩
      · exact .inr (hputs ▸ hex)
    have hslot : x.store.state.quarantined.lookup ⟨d, x.store.inner.freeSlot d⟩ = none := by
      rw [h.aside, LocalCas.lookup_freeSlot]
      rfl
    exact {
      mode := h.mode
      disk := h.disk
      mirror := rfl
      books := CasStore.moveCharge_books h.books hslot
      aside := by
        intro id
        simp only [CasStore.moveCharge, LocalCas.setAside, Map.lookup_insert_eq]
        split
        · rfl
        · exact h.aside id
      moved := by
        intro id
        simp only [CasStore.moveCharge, LocalCas.setAside, Map.lookup_insert_eq]
        split
        · rfl
        · exact h.moved id
      registered := h.registered
      calls := by
        intro p hp
        refine (h.calls p hp).mono ?_
        rintro d' src reg got eof rfl hreg
        refine hcov d' ?_ _ rfl rfl
        rintro rfl
        exact h.registered.defers hp hreg hfast
      cover := by
        intro d' hd'
        have hne : d' ≠ d ∧ x.store.inner.has d' = true := by
          simpa [CasStore.moveCharge, LocalCas.has_setAside] using hd'
        exact (h.cover d' hne.2).imp_left (hcov d' hne.1 _ rfl rfl) }
  · exact absurd rfl hstat

/-- A file goes bad: what was charged for it stays charged. -/
theorem corrupt (h : BooksInv H used capacity x o) {d : Digest} {bytes : Bytes}
    (hheld : x.store.inner.has d = true) :
    BooksInv H used capacity { x with store := { x.store with
      inner := { x.store.inner with blobs := x.store.inner.blobs.insert d bytes } } } o where
  mode := h.mode
  disk := h.disk
  mirror := h.mirror
  books := h.books
  aside := h.aside
  moved := h.moved
  registered := h.registered
  calls := h.calls
  cover := by
    intro d' hd'
    refine h.cover d' ?_
    by_cases hd : d' = d
    · rw [hd]
      exact hheld
    · simpa [LocalCas.has, LocalCas.size, Map.lookup_insert_eq, hd] using hd'

/-- Every transition of a keyed write keeps the invariant. -/
theorem move (h : BooksInv H used capacity x o) (hcf : H.CollisionFree used) {i : Nat}
    {w w' : Writer} {ev : WriteEvent} {s' : CasStore} (hi : x.puts[i]? = some (.keyed w))
    (hused : ev = .publish → used w.phase.got)
    (hreg : Sys.Registered { x with store := s', puts := x.puts.set i (.keyed w') })
    (hmove : Writer.Moves H x.store w ev s' w') :
    BooksInv H used capacity { x with store := s', puts := x.puts.set i (.keyed w') }
      (observe H x (.write i ev) o) := by
  have hok := h.calls _ (List.mem_of_getElem? hi)
  have hpublish := Sys.publishing_keyed hi
  cases hmove with
  | direct hm => rw [h.mode] at hm; cases hm
  | @fast d src statFailed cap hm held =>
    refine h.quiet hi ⟨rfl, rfl, rfl, rfl, rfl, rfl⟩ hreg ⟨rfl, ?_⟩ (by simp)
    rcases held with hacc | ⟨-, hhas⟩
    · exact .inl (.inl (Option.isSome_iff_exists.mp hacc))
    · exact (h.cover d hhas).imp_right fun hc => ⟨hc.1, hc.2.1⟩
  | gate hm hacc hnew => exact h.quiet hi (.rfl' _) hreg rfl (by simp)
  | read hr => exact h.quiet hi (.rfl' _) hreg hok (by simp)
  | add hr => exact h.quiet hi ⟨rfl, rfl, rfl, rfl, rfl, rfl⟩ hreg hok (by simp)
  | failUngated => exact h.quiet hi (.rfl' _) hreg trivial (by simp)
  | failGated => exact h.quiet hi (.rfl' _) hreg trivial (by simp)
  | load => exact h.quiet hi (.rfl' _) hreg hok (by simp)
  | blame hm => exact h.quiet hi (.rfl' _) hreg trivial (by simp)
  | @accept d src got chunk mine before seen cap hm hfits =>
    have hlen : got.length = mine := hok
    exact h.quiet hi (.rfl' _) hreg (by simp [BookOk, hlen]) (by simp)
  | trip hm hfits =>
    exact h.quiet hi ⟨rfl, rfl, rfl, rfl, rfl, rfl⟩ hreg trivial (by simp)
  | landUngated hv hlock =>
    simp only [observe, hpublish, Phase.got, hv, if_true]
    exact h.land hcf hi (hused rfl) hv hreg trivial (by simp) (.inl hok.2)
  | rejectUngated hv =>
    simp only [observe, hpublish, Phase.got, hv, Bool.false_eq_true, if_false]
    exact h.quiet hi (.rfl' _) hreg trivial (by simp)
  | @landGated d src got mine hv hlock =>
    have hlen : got.length = mine := hok
    subst hlen
    simp only [observe, hpublish, Phase.got, hv, if_true]
    exact h.land hcf hi (hused rfl) hv hreg trivial (by simp) (.inr ⟨src, rfl⟩)
  | rejectGated hv =>
    simp only [observe, hpublish, Phase.got, hv, Bool.false_eq_true, if_false]
    exact h.quiet hi (.rfl' _) hreg trivial (by simp)
  | account => exact h.charge hi hreg
  | dropRefused => exact h.quiet hi ⟨rfl, rfl, rfl, rfl, rfl, rfl⟩ hreg trivial (by simp)
  | dropCharged => exact h.quiet hi ⟨rfl, rfl, rfl, rfl, rfl, rfl⟩ hreg trivial (by simp)
  | doneOk => exact h.quiet hi (.deregister _ _ _) hreg trivial (by simp)
  | doneError => exact h.quiet hi (.deregister _ _ _) hreg trivial (by simp)
  | afterWrite => exact h.quiet hi ⟨rfl, rfl, rfl, rfl, rfl, rfl⟩ hreg trivial (by simp)
  | ret => exact h.quiet hi (.rfl' _) hreg trivial (by simp)

/-- The step lemma. -/
theorem step (h : BooksInv H used capacity x o) (hcf : H.CollisionFree used) {a : Act} {y : Sys}
    (hK : WithQuarantine used (x, o) a) (hs : Sys.step H x a = some y) :
    BooksInv H used capacity y (observe H x a o) := by
  have hreg := h.registered.step hs
  cases a with
  | put => cases hs; exact h.begin trivial fun d => rfl
  | putKeyed d => cases hs; exact h.begin trivial fun d => by simp [Putter.registered, Phase.registered]
  | write i ev =>
    obtain ⟨p, s', p', hi, hp, rfl⟩ := Sys.step_write hs
    rcases Putter.step_cases hp with ⟨w, w', rfl, rfl, hmove⟩ | ⟨rfl, got, rfl, hspool⟩
    · refine h.move hcf hi ?_ hreg hmove
      rintro rfl
      exact hK.2.2 _ (Sys.publishing_keyed hi)
    · have hseen : observe H x (.write i ev) o = o := by
        cases ev <;> simp [observe, Sys.publishing, hi]
      rw [hseen]
      rcases hspool with ⟨got', rfl⟩ | ⟨e, rfl⟩ | ⟨cap, hm, rfl⟩ | ⟨budget, grace, hm, rfl⟩
      · exact h.quiet hi (.rfl' _) hreg trivial (by simp)
      · exact h.quiet hi (.rfl' _) hreg trivial (by simp)
      · exact h.quiet hi (.rfl' _) hreg trivial (by simp)
      · rw [h.mode] at hm
        cases hm
  | quarantine d stat =>
    obtain rfl : stat = none := by simpa [Act.statFails] using hK.2.1
    cases hs
    exact h.quarantine d
  | release d => cases hs; exact h.method ⟨rfl, rfl, rfl, rfl, rfl, rfl⟩ fun d => rfl
  | get d => rw [Sys.step_get hs]; exact h.method ⟨rfl, rfl, rfl, rfl, rfl, rfl⟩ fun d => rfl
  | corrupt d bytes =>
    obtain ⟨-, hheld, -, rfl⟩ := Sys.step_corrupt hs
    exact h.corrupt hheld
  | evict => cases hK.1
  | evictStep i ev => cases hK.1
  | scrub d => cases hK.1
  | scrubStep i ev => cases hK.1

/-- A store opened over any directory starts with true books. -/
theorem new {inner : LocalCas} {now : Nat} {blobs : List LocalBlob}
    {quarantine : List QuarantinedBlob} (hdisk : inner.kind = .disk) (hl : inner.IterLocal blobs)
    (hq : inner.IterQuarantine quarantine) :
    BooksInv H used capacity (.idle (.new inner (.writeOnly capacity) now blobs quarantine))
      (.opening (.new inner (.writeOnly capacity) now blobs quarantine)) where
  mode := rfl
  disk := hdisk
  mirror := rfl
  books := CasStore.new_committed hl hq
  aside := CasStore.new_quarantined hq
  moved := fun id => by
    rw [Seen.opening, CasStore.new_quarantined hq]
    rfl
  registered := Sys.registered_idle rfl
  calls := fun p hp => absurd hp List.not_mem_nil
  cover := fun d hd => by
    obtain ⟨n, hn⟩ := Option.isSome_iff_exists.mp hd
    exact .inl (.inl ⟨n, (CasStore.new_accounted hl d).trans hn⟩)

end BooksInv

end NessieStore
