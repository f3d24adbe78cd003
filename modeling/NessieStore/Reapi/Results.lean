import NessieStore.Core.ActionResult
import NessieStore.Reapi.Boundary

/-!
# Action results on the wire

The two directions of `map.rs`: a REAPI `ActionResult` message to the native result that the cache
keeps (`arFromReapi`, on `UpdateActionResult`), and back (`arToReapi`, on `GetActionResult`). A native
result has fewer fields than the message, and `arFromReapi` refuses messages that fill the others, but
not all of them: it does not look at the symbolic links of before version 2.1, nor at the inline
contents and the node properties of an output file. What a message loses on the way through is exactly
that (`strip`), so a message comes back whole, up to the order of its files, iff it leaves them empty
(`Carried`).

The messages for directories, links, node properties and execution metadata are never looked into, so
they are types of which nothing is known. A native digest has no size; `Sizes` is where the emit path
looks it up. `to_reapi` asserts in debug builds that its digest is a SHA-256; the release build, which
is modelled here, writes any digest's hex.
-/

set_option autoImplicit false

namespace NessieStore.Reapi

open Lib

/-! ## The messages -/

variable {Dir Link Props Meta : Type}

/-- `reapi::OutputFile`. -/
structure OutputFile (Props : Type) where
  path : Text
  digest : Option Digest
  isExecutable : Bool
  contents : Bytes
  nodeProperties : Option Props

/-- `reapi::ActionResult`. -/
structure ActionResult (Dir Link Props Meta : Type) where
  outputFiles : List (OutputFile Props)
  outputFileSymlinks : List Link
  outputSymlinks : List Link
  outputDirectories : List Dir
  outputDirectorySymlinks : List Link
  exitCode : Int32
  stdoutRaw : Bytes
  stdoutDigest : Option Digest
  stderrRaw : Bytes
  stderrDigest : Option Digest
  executionMetadata : Option Meta

/-! ## Emitting -/

/-- `SizeSource`. -/
abbrev Sizes := NessieStore.Digest → Except Status UInt64

/-- `Sha256Boundary::to_reapi`. -/
def toReapi (d : NessieStore.Digest) (size : UInt64) : Digest := ⟨Hex.encode d.bytes, size.toInt64⟩

variable (sizes : Sizes)

def optToReapi : Option NessieStore.Digest → Except Status (Option Digest)
  | none => .ok none
  | some d => do
    let size ← sizes d
    .ok (some (toReapi d size))

/-- The loop over the outputs. -/
def filesToReapi : List (Text × NessieStore.OutputFile) → Except Status (List (OutputFile Props))
  | [] => .ok []
  | (path, file) :: outputs => do
    let size ← sizes file.digest
    let files ← filesToReapi outputs
    .ok (⟨path, some (toReapi file.digest size), file.isExecutable, [], none⟩ :: files)

def arToReapi (ar : NessieStore.ActionResult) :
    Except Status (ActionResult Dir Link Props Meta) := do
  let outputFiles ← filesToReapi sizes ar.outputs
  let stdoutDigest ← optToReapi sizes ar.stdoutDigest
  let stderrDigest ← optToReapi sizes ar.stderrDigest
  .ok ⟨outputFiles, [], [], [], [], ar.exitCode, [], stdoutDigest, [], stderrDigest, none⟩

/-! ## Accepting -/

/-- The outputs of a native result. -/
abbrev Outputs :=
  { outputs : List (Text × NessieStore.OutputFile) // AscendsFrom none outputs }

theorem ascendsFrom_nil : AscendsFrom none ([] : List (Text × NessieStore.OutputFile)) := .nil none

variable (debug : Text → String)

/-- The loop over the output files. -/
def filesFromReapi (outputs : Outputs) : List (OutputFile Props) → Except Status Outputs
  | [] => .ok outputs
  | file :: files =>
    match file.digest with
    | none => .error (.bad "output_file is missing its digest")
    | some digest => do
      let native ← toNative debug digest
      if hnew : ∀ e ∈ outputs.1, e.1 ≠ file.path then
        filesFromReapi (insertNamed outputs file.path ⟨native, file.isExecutable⟩ hnew) files
      else .error (.bad ("duplicate output path " ++ debug file.path))

/-- `digest.map(to_native).transpose()`. -/
def optToNative : Option Digest → Except Status (Option NessieStore.Digest)
  | none => .ok none
  | some digest => do
    let native ← toNative debug digest
    .ok (some native)

def arFromReapi (ar : ActionResult Dir Link Props Meta) : Except Status NessieStore.ActionResult :=
  if !ar.outputDirectories.isEmpty || !ar.outputSymlinks.isEmpty then
    .error (.bad "output_directories / output_symlinks are not yet representable")
  else if ar.executionMetadata.isSome then .error (.bad "execution_metadata is not represented")
  else if !ar.stdoutRaw.isEmpty || !ar.stderrRaw.isEmpty then
    .error (.bad
      "inline stdout_raw/stderr_raw is not supported; upload the bytes and use a digest")
  else do
    let outputs ← filesFromReapi debug ⟨[], ascendsFrom_nil⟩ ar.outputFiles
    let stdoutDigest ← optToNative debug ar.stdoutDigest
    let stderrDigest ← optToNative debug ar.stderrDigest
    .ok ⟨outputs.1, outputs.2, ar.exitCode, stdoutDigest, stderrDigest⟩

/-! ## The files -/

section Files

variable {debug} {sizes : Sizes} {size : NessieStore.Digest → UInt64}

variable (debug) in
/-- A message's file and the output that it is read as. -/
structure ReadsAs (file : OutputFile Props) (output : Text × NessieStore.OutputFile) : Prop where
  path : file.path = output.1
  digest : ∃ r, file.digest = some r ∧ toNative debug r = .ok output.2.digest
  isExecutable : file.isExecutable = output.2.isExecutable

/-- The order of the names leaves one way to list a set of outputs. -/
theorem Outputs.ext_perm {outputs outputs' : Outputs} (h : outputs.1.Perm outputs'.1) :
    outputs = outputs' :=
  Subtype.ext (eq_of_ascending outputs.2.1 outputs'.2.1 h)

theorem insertNamed_perm {outputs : Outputs} {name : Text} {file : NessieStore.OutputFile}
    (hnew : ∀ e ∈ outputs.1, e.1 ≠ name) :
    (insertNamed outputs name file hnew).1.Perm ((name, file) :: outputs.1) :=
  List.perm_orderedInsert _ _ _

/-- By induction on the files: they are accepted iff they can be read, and then the outputs are what
they are read as, together with those that were there. That no path comes twice is in the type. -/
theorem filesFromReapi_eq_ok_iff {outputs out : Outputs} {files : List (OutputFile Props)} :
    filesFromReapi debug outputs files = .ok out ↔
      ∃ natives, List.Forall₂ (ReadsAs debug) files natives ∧ out.1.Perm (natives ++ outputs.1) := by
  induction files generalizing outputs with
  | nil =>
    rw [filesFromReapi, Except.ok.injEq]
    constructor
    · rintro rfl
      exact ⟨[], .nil, .refl _⟩
    · rintro ⟨natives, hreads, hperm⟩
      cases hreads
      exact Outputs.ext_perm hperm.symm
  | cons file files ih =>
    rw [filesFromReapi]
    constructor
    · intro h
      split at h
      · cases h
      · next digest hdigest =>
        obtain ⟨native, hnative, h⟩ := ok_of_bind h
        split at h
        · next hnew =>
          obtain ⟨natives, hreads, hperm⟩ := ih.mp h
          refine ⟨(file.path, ⟨native, file.isExecutable⟩) :: natives,
            .cons ⟨rfl, ⟨digest, hdigest, hnative⟩, rfl⟩ hreads, hperm.trans ?_⟩
          exact ((insertNamed_perm hnew).append_left natives).trans List.perm_middle
        · cases h
    · rintro ⟨natives, hreads, hperm⟩
      cases hreads with
      | @cons _ output _ natives hread hreads =>
        obtain ⟨path, native, executable⟩ := output
        obtain ⟨rfl, ⟨r, hdigest, hnative⟩, rfl⟩ := hread
        -- the outputs ascend strictly, so the path is new
        have hnew : ∀ e ∈ outputs.1, e.1 ≠ file.path := by
          intro e he heq
          have hpair := hperm.pairwise_iff (R := fun a b => nameKey a.1 ≠ nameKey b.1) Ne.symm
          have hdistinct := hpair.mp (out.2.1.imp fun hlt => ne_of_lt hlt)
          rw [List.cons_append] at hdistinct
          exact (List.pairwise_cons.mp hdistinct).1 e (List.mem_append_right natives he)
            (congrArg nameKey heq.symm)
        simp only [hdigest, hnative, bind, Except.bind, dif_pos hnew]
        refine ih.mpr ⟨natives, hreads, hperm.trans ?_⟩
        exact (((insertNamed_perm hnew).append_left natives).trans List.perm_middle).symm

/-- What a file loses on its way through. -/
def OutputFile.strip (file : OutputFile Props) : OutputFile Props :=
  { file with contents := [], nodeProperties := none }

/-- The file that is written for an output. -/
def emit (size : NessieStore.Digest → UInt64) (output : Text × NessieStore.OutputFile) :
    OutputFile Props :=
  ⟨output.1, some (toReapi output.2.digest (size output.2.digest)), output.2.isExecutable, [], none⟩

theorem filesToReapi_eq {outputs : List (Text × NessieStore.OutputFile)}
    (hsizes : ∀ e ∈ outputs, sizes e.2.digest = .ok (size e.2.digest)) :
    filesToReapi sizes outputs = .ok (outputs.map (emit size : _ → OutputFile Props)) := by
  induction outputs with
  | nil => rfl
  | cons e outputs ih =>
    obtain ⟨he, houtputs⟩ := List.forall_mem_cons.mp hsizes
    simp only [filesToReapi, he, ih houtputs, bind, Except.bind]
    rfl

theorem optToReapi_eq {digest : Option NessieStore.Digest}
    (hsizes : ∀ d ∈ digest, sizes d = .ok (size d)) :
    optToReapi sizes digest = .ok (digest.map fun d => toReapi d (size d)) := by
  cases digest with
  | none => rfl
  | some d => simp only [optToReapi, hsizes d rfl, bind, Except.bind, Option.map_some]

end Files

/-! ## There and back -/

/-- The digests of a message. -/
def ActionResult.digests (ar : ActionResult Dir Link Props Meta) : List Digest :=
  ar.outputFiles.filterMap OutputFile.digest ++ ar.stdoutDigest.toList ++ ar.stderrDigest.toList

/-- The digests of a native result. -/
def digestsOf (ar : NessieStore.ActionResult) : List NessieStore.Digest :=
  ar.outputs.map (fun e => e.2.digest) ++ ar.stdoutDigest.toList ++ ar.stderrDigest.toList

/-- A REAPI digest carries the size of the blob that its hash names. -/
def TrueSize (size : NessieStore.Digest → UInt64) (r : Digest) : Prop :=
  ∀ d : NessieStore.Digest, d.algo = .sha256 → Hex.encode d.bytes = r.hash →
    r.sizeBytes = (size d).toInt64

/-- The fields that are neither represented nor refused are empty. -/
structure Carried (ar : ActionResult Dir Link Props Meta) : Prop where
  fileSymlinks : ar.outputFileSymlinks = []
  directorySymlinks : ar.outputDirectorySymlinks = []
  files : ∀ file ∈ ar.outputFiles, file.contents = [] ∧ file.nodeProperties = none

section Mapping

variable {debug} {sizes : Sizes} {size : NessieStore.Digest → UInt64}

/-- A digest with its true size is written as it was read. -/
theorem toReapi_of_toNative {r : Digest} {d : NessieStore.Digest} (h : toNative debug r = .ok d)
    (hsize : TrueSize size r) : toReapi d (size d) = r := by
  obtain ⟨-, halgo, hhash⟩ := toNative_eq_ok_iff.mp h
  rw [toReapi, hhash, ← hsize d halgo hhash]

theorem emit_of_readsAs {files : List (OutputFile Props)}
    {natives : List (Text × NessieStore.OutputFile)}
    (h : List.Forall₂ (ReadsAs debug) files natives)
    (hsize : ∀ file ∈ files, ∀ r ∈ file.digest, TrueSize size r) :
    natives.map (emit size) = files.map OutputFile.strip := by
  induction h with
  | nil => rfl
  | @cons file output files natives hread hreads ih =>
    obtain ⟨hfile, hfiles⟩ := List.forall_mem_cons.mp hsize
    obtain ⟨r, hdigest, hnative⟩ := hread.digest
    rw [List.map_cons, List.map_cons, ih hfiles]
    congr 1
    rw [emit, OutputFile.strip, hread.path, hread.isExecutable, hdigest,
      toReapi_of_toNative hnative (hfile r hdigest)]

theorem optToNative_emit {digest : Option Digest} {native : Option NessieStore.Digest}
    (h : optToNative debug digest = .ok native) (hsize : ∀ r ∈ digest, TrueSize size r) :
    native.map (fun d => toReapi d (size d)) = digest := by
  cases digest with
  | none =>
    cases h
    rfl
  | some r =>
    obtain ⟨d, hd, h⟩ := ok_of_bind h
    cases h
    rw [Option.map_some, toReapi_of_toNative hd (hsize r rfl)]

/-- What an accepted message comes back as. -/
theorem arToReapi_of_arFromReapi {a : ActionResult Dir Link Props Meta} {v : NessieStore.ActionResult}
    (h : arFromReapi debug a = .ok v) (ha : ∀ r ∈ a.digests, TrueSize size r)
    (hsizes : ∀ d ∈ digestsOf v, sizes d = .ok (size d)) :
    ∃ files, files.Perm (a.outputFiles.map OutputFile.strip) ∧
      arToReapi sizes v = .ok { a with
        outputFiles := files, outputFileSymlinks := [], outputDirectorySymlinks := [] } := by
  unfold arFromReapi at h
  split at h
  · cases h
  next hdirs =>
  split at h
  · cases h
  next hmeta =>
  split at h
  · cases h
  next hraw =>
  obtain ⟨outputs, houtputs, h⟩ := ok_of_bind h
  obtain ⟨out, hout, h⟩ := ok_of_bind h
  obtain ⟨err, herr, h⟩ := ok_of_bind h
  cases h
  simp only [Bool.or_eq_true, Bool.not_eq_true', List.isEmpty_eq_false_iff, ne_eq, not_or,
    not_not] at hdirs hraw
  rw [Bool.not_eq_true, Option.isSome_eq_false_iff, Option.isNone_iff_eq_none] at hmeta
  simp only [ActionResult.digests, List.forall_mem_append, Option.mem_toList] at ha
  simp only [digestsOf, List.forall_mem_append, Option.mem_toList, List.forall_mem_map] at hsizes
  obtain ⟨⟨hfiles, hstdout⟩, hstderr⟩ := ha
  obtain ⟨⟨hsfiles, hsout⟩, hserr⟩ := hsizes
  obtain ⟨natives, hreads, hperm⟩ := filesFromReapi_eq_ok_iff.mp houtputs
  rw [List.append_nil] at hperm
  have hemit := emit_of_readsAs hreads fun file hfile r hr =>
    hfiles r (List.mem_filterMap.mpr ⟨file, hfile, hr⟩)
  refine ⟨outputs.1.map (emit size), hemit ▸ hperm.map (emit size), ?_⟩
  simp only [arToReapi, filesToReapi_eq hsfiles, optToReapi_eq hsout, optToReapi_eq hserr,
    optToNative_emit hout hstdout, optToNative_emit herr hstderr, bind, Except.bind]
  rw [hdirs.1, hdirs.2, hmeta, hraw.1, hraw.2]

/-- Nothing is lost iff nothing was there to lose. -/
theorem perm_strip_iff {files : List (OutputFile Props)} :
    (files.map OutputFile.strip).Perm files ↔
      ∀ file ∈ files, file.contents = [] ∧ file.nodeProperties = none := by
  constructor
  · intro h file hfile
    obtain ⟨file', -, rfl⟩ := List.mem_map.mp (h.mem_iff.mpr hfile)
    exact ⟨rfl, rfl⟩
  · intro h
    have hstrip : files.map OutputFile.strip = files := by
      refine (List.map_congr_left fun file hfile => ?_).trans (List.map_id files)
      obtain ⟨hcontents, hprops⟩ := h file hfile
      rw [OutputFile.strip, ← hcontents, ← hprops, id]
    rw [hstrip]

/-- What is written for a native result over SHA-256 digests is read back. -/
theorem arFromReapi_of_arToReapi {v : NessieStore.ActionResult}
    (hv : ∀ d ∈ digestsOf v, d.algo = .sha256) (hsizes : ∀ d ∈ digestsOf v, sizes d = .ok (size d)) :
    (arToReapi sizes v >>= fun a : ActionResult Dir Link Props Meta => arFromReapi debug a) = .ok v := by
  have hnative : ∀ d : NessieStore.Digest, d.algo = .sha256 →
      toNative debug (toReapi d (size d)) = .ok d :=
    fun d hd => toNative_eq_ok_iff.mpr ⟨isHash_encode hd, hd, rfl⟩
  have hopt : ∀ digest : Option NessieStore.Digest, (∀ d ∈ digest, d.algo = .sha256) →
      optToNative debug (digest.map fun d => toReapi d (size d)) = .ok digest := by
    intro digest h
    cases digest with
    | none => rfl
    | some d => simp only [Option.map_some, optToNative, hnative d (h d rfl), bind, Except.bind]
  simp only [digestsOf, List.forall_mem_append, Option.mem_toList, List.forall_mem_map] at hv hsizes
  obtain ⟨⟨hfiles, hstdout⟩, hstderr⟩ := hv
  obtain ⟨⟨hsfiles, hsout⟩, hserr⟩ := hsizes
  have hread : filesFromReapi debug ⟨[], ascendsFrom_nil⟩ (v.outputs.map (emit size : _ → OutputFile Props)) =
      .ok ⟨v.outputs, v.ascending⟩ := by
    refine filesFromReapi_eq_ok_iff.mpr ⟨v.outputs, ?_, by rw [List.append_nil]⟩
    refine List.forall₂_map_left_iff.mpr (List.forall₂_same.mpr fun e he => ?_)
    exact ⟨rfl, ⟨_, rfl, hnative _ (hfiles e he)⟩, rfl⟩
  simp only [arToReapi, filesToReapi_eq hsfiles, optToReapi_eq hsout, optToReapi_eq hserr, bind,
    Except.bind, arFromReapi, hread, hopt _ hstdout, hopt _ hstderr, List.isEmpty_nil, Bool.not_true,
    Bool.or_self, Option.isSome_none, Bool.false_eq_true, if_false]

end Mapping

/-- An accepted message whose digests carry true sizes comes back whole, up to the order of its files,
iff the fields that are dropped are empty; and a native result over SHA-256 digests of known sizes
comes back as it was. -/
theorem action_results_carried (debug : Text → String) (sizes : Sizes)
    (size : NessieStore.Digest → UInt64) :
    (∀ (a : ActionResult Dir Link Props Meta) (v : NessieStore.ActionResult),
      (∀ r ∈ a.digests, TrueSize size r) → arFromReapi debug a = .ok v →
      (∀ d ∈ digestsOf v, sizes d = .ok (size d)) →
      ((∃ files, files.Perm a.outputFiles ∧
          arToReapi sizes v = .ok { a with outputFiles := files }) ↔ Carried a)) ∧
    ∀ v : NessieStore.ActionResult, (∀ d ∈ digestsOf v, d.algo = .sha256) →
      (∀ d ∈ digestsOf v, sizes d = .ok (size d)) →
      (arToReapi sizes v >>= fun a : ActionResult Dir Link Props Meta => arFromReapi debug a) =
        .ok v := by
  refine ⟨?_, fun v hv hsizes => arFromReapi_of_arToReapi hv hsizes⟩
  intro a v ha hread hsizes
  obtain ⟨files, hperm, hemit⟩ := arToReapi_of_arFromReapi hread ha hsizes
  constructor
  · rintro ⟨files', hperm', hemit'⟩
    rw [hemit, Except.ok.injEq, ActionResult.mk.injEq] at hemit'
    obtain ⟨rfl, hfile, -, -, hdir, -⟩ := hemit'
    exact ⟨hfile.symm, hdir.symm, perm_strip_iff.mp (hperm.symm.trans hperm')⟩
  · intro hcarried
    refine ⟨files, hperm.trans (perm_strip_iff.mpr hcarried.files), ?_⟩
    rw [hemit, hcarried.fileSymlinks, hcarried.directorySymlinks]

/-- A message with one file, and this much of its content inline. -/
def oneFile (contents : Bytes) : ActionResult Unit Unit Unit Unit where
  outputFiles := [⟨"a".toList, some ⟨List.replicate 64 '0', 1⟩, false, contents, none⟩]
  outputFileSymlinks := []
  outputSymlinks := []
  outputDirectories := []
  outputDirectorySymlinks := []
  exitCode := 0
  stdoutRaw := []
  stdoutDigest := none
  stderrRaw := []
  stderrDigest := none
  executionMetadata := none

def oneNative : NessieStore.ActionResult where
  outputs := [("a".toList, ⟨⟨.sha256, List.replicate 32 0, rfl⟩, false⟩)]
  ascending := .cons (by simp) (.nil _)
  exitCode := 0
  stdoutDigest := none
  stderrDigest := none

theorem oneFile_trueSize (contents : Bytes) :
    ∀ r ∈ (oneFile contents).digests, TrueSize (fun _ => 1) r := by
  intro r hr d _ _
  rw [List.mem_singleton.mp hr]
  rfl

theorem arFromReapi_oneFile (contents : Bytes) :
    arFromReapi (fun _ => "") (oneFile contents) = .ok oneNative := by
  have hnative : toNative (fun _ => "") ⟨List.replicate 64 '0', 1⟩ =
      .ok ⟨.sha256, List.replicate 32 0, rfl⟩ :=
    toNative_eq_ok_iff.mpr ⟨by decide +kernel, rfl, by decide +kernel⟩
  have hfiles : filesFromReapi (fun _ => "") ⟨[], ascendsFrom_nil⟩ (oneFile contents).outputFiles =
      .ok ⟨oneNative.outputs, oneNative.ascending⟩ :=
    filesFromReapi_eq_ok_iff.mpr ⟨_, .cons ⟨rfl, ⟨_, rfl, hnative⟩, rfl⟩ .nil, .refl _⟩
  rw [arFromReapi, hfiles]
  rfl

/-- Without inline content it comes back whole, and so does the native result. -/
theorem action_results_carried_plain :
    (∃ v, arFromReapi (fun _ => "") (oneFile []) = .ok v ∧
      ∃ files, files.Perm (oneFile []).outputFiles ∧
        arToReapi (fun _ => .ok 1) v = .ok { oneFile [] with outputFiles := files }) ∧
    (arToReapi (fun _ => .ok 1) oneNative >>= fun a : ActionResult Unit Unit Unit Unit =>
      arFromReapi (fun _ => "") a) = .ok oneNative := by
  obtain ⟨hmessage, hnative⟩ := @action_results_carried Unit Unit Unit Unit (fun _ => "")
    (fun _ => .ok 1) (fun _ => 1)
  refine ⟨⟨oneNative, arFromReapi_oneFile [], ?_⟩, hnative oneNative ?_ fun _ _ => rfl⟩
  · refine (hmessage (oneFile []) oneNative (oneFile_trueSize []) (arFromReapi_oneFile [])
      fun _ _ => rfl).mpr ⟨rfl, rfl, ?_⟩
    simp [oneFile]
  · decide +kernel

/-- Content inline is accepted, and does not come back. -/
theorem inlined_lost : ∃ (v : NessieStore.ActionResult) (b : ActionResult Unit Unit Unit Unit),
    (∀ r ∈ (oneFile [7]).digests, TrueSize (fun _ => 1) r) ∧
      arFromReapi (fun _ => "") (oneFile [7]) = .ok v ∧
      arToReapi (fun _ => .ok 1) v = .ok b ∧ ¬ b.outputFiles.Perm (oneFile [7]).outputFiles := by
  refine ⟨oneNative, _, oneFile_trueSize [7], arFromReapi_oneFile [7], rfl, ?_⟩
  intro hperm
  have hsame := List.perm_singleton.mp hperm
  cases hsame

end NessieStore.Reapi
