import DbfAnonymizer.Engine.ReceiptJson

/-! A receipt that the engine wrote is read back as the result it was written from. -/
namespace DbfAnonymizer.Engine
open Lib Transfer Verification

variable {rt : PythonRuntime} {sha256 : List UInt8 → Text} {py : PythonBuiltins}

theorem StandaloneIdxEvidence.new_eq_some {given e : StandaloneIdxEvidence} :
    StandaloneIdxEvidence.new rt sha256 given = some e ↔ ∃ artifactPath expectedId tablePath,
      normalizedRelativePath rt given.artifactPath = some artifactPath ∧
        standaloneIdxArtifactId rt sha256 artifactPath = some expectedId ∧
          normalizedOptionalPath rt given.tablePath = some tablePath ∧ e = { given with artifactPath, tablePath } ∧
            e.accepts rt expectedId = true := by
  unfold StandaloneIdxEvidence.new
  simp only [Option.bind_eq_bind, Option.bind_eq_some_iff]
  constructor
  · rintro ⟨artifactPath, hpath, expectedId, hid, tablePath, htable, hguard⟩
    split_ifs at hguard with haccepts
    obtain rfl := Option.some.inj hguard
    exact ⟨artifactPath, expectedId, tablePath, hpath, hid, htable, rfl, haccepts⟩
  · rintro ⟨artifactPath, expectedId, tablePath, hpath, hid, htable, rfl, haccepts⟩
    exact ⟨artifactPath, hpath, expectedId, hid, tablePath, htable, if_pos haccepts⟩

/-- A path of the plan, in the normal form that the dataset identity keeps. -/
def IsPlanPath (rt : PythonRuntime) (path : Text) : Prop := ∃ value, normalizedRelativePath rt value = some path

theorem new_idxEvidence {idxPath status sourceSha256 : Text} {backendId tablePath outputSha256 : Option Text}
    {e : StandaloneIdxEvidence} (h : idxEvidence rt sha256 idxPath status sourceSha256 backendId tablePath outputSha256 = some e)
    (htable : ∀ path ∈ tablePath, IsPlanPath rt path) : StandaloneIdxEvidence.new rt sha256 e = some e := by
  obtain ⟨artifactId, -, hnew⟩ := Option.bind_eq_some_iff.mp h
  obtain ⟨artifactPath, expectedId, normalized, hpath, hid, hnormalized, rfl, haccepts⟩ :=
    StandaloneIdxEvidence.new_eq_some.mp hnew
  have hagain : normalizedRelativePath rt artifactPath = some artifactPath := by
    obtain ⟨path', hpath', -⟩ := Option.bind_eq_some_iff.mp hid
    rw [hpath', (normalPath_of_normalized hpath).eq_of_normalized hpath']
  have htableAgain : normalizedOptionalPath rt normalized = some normalized := by
    cases tablePath with
    | none =>
      obtain rfl : none = normalized := Option.some.inj hnormalized
      rfl
    | some path =>
      obtain ⟨path', hpath', rfl⟩ := Option.map_eq_some_iff.mp hnormalized
      obtain ⟨value, hvalue⟩ := htable path rfl
      obtain rfl := (normalPath_of_normalized hvalue).eq_of_normalized hpath'
      exact congrArg (Option.map some) hpath'
  exact StandaloneIdxEvidence.new_eq_some.mpr ⟨artifactPath, expectedId, normalized, hagain, hid, htableAgain, rfl, haccepts⟩

theorem dictPairs_keys (entries : List (String × Json)) :
    (dictPairs entries).map (·.1) = (entries.map (·.1)).map String.toList := by
  simp [dictPairs]

theorem nodup_dictPairs {entries : List (String × Json)} (h : (entries.map (·.1)).Nodup) :
    ((dictPairs entries).map (·.1)).Nodup := by
  rw [dictPairs_keys]
  exact h.map fun _ _ => String.toList_inj.mp

theorem valueAt_dict (entries : List (String × Json)) (key : String) :
    valueAt (sortedBy Prod.fst (dictPairs entries)) key = (entries.find? fun e => e.1 = key).map (·.2) := by
  rw [valueAt_sortedBy, valueAt, dictPairs, List.find?_map, Option.map_map]
  simp [Function.comp_def, String.toList_inj]

/-- The hook of plain `json.loads`. -/
abbrev plainHook (pairs : List (Text × Json)) : Except Raised Json := .ok (.obj (dictOf pairs))

theorem kept_dictJson {entries : List (String × Json)} (h : (entries.map (·.1)).Nodup)
    (hvalues : ∀ e ∈ entries, Json.Kept plainHook e.2) : Json.Kept plainHook (dictJson entries) := by
  apply kept_sortedObject (nodup_dictPairs h)
  intro p hp
  obtain ⟨e, he, rfl⟩ := List.mem_map.mp hp
  exact hvalues e he

theorem hasExactKeys_dict {entries : List (String × Json)} {keys : List String} (h : entries.map (·.1) = keys) :
    hasExactKeys (sortedBy Prod.fst (dictPairs entries)) keys = true := by
  apply hasExactKeys_sortedBy
  rw [dictPairs_keys, h]

theorem summaryFromItem_asdict (s : RelationPassSummary) :
    summaryFromItem (dictJson s.asdict) = .ok (s.asdict.map (·.2)) := by
  have hkeys : s.asdict.map (·.1) = summaryKeys := rfl
  simp only [dictJson, sortedObject, summaryFromItem, hasExactKeys_dict hkeys, valueAt_dict]
  rfl

@[simp] theorem jsonOptionalText?_optionalText (s : Option Text) : jsonOptionalText? (optionalText s) = some s := by
  cases s <;> rfl

theorem evidenceFromItem_toDict {e : StandaloneIdxEvidence} (h : StandaloneIdxEvidence.new rt sha256 e = some e) :
    evidenceFromItem rt sha256 (dictJson e.toDict) = .ok e := by
  have hkeys : e.toDict.map (·.1) = evidenceKeys := rfl
  simp only [dictJson, sortedObject, evidenceFromItem, hasExactKeys_dict hkeys, valueAt_dict]
  simp [StandaloneIdxEvidence.toDict, jsonText?, required, refuseIf, h]

/-- What holds of every result that the engine stores: it carries its identities, its dictionary has one value for
each domain, and its index evidence was built from paths of the plan. -/
structure EngineResult (rt : PythonRuntime) (sha256 : List UInt8 → Text) (r : TwoPassResult) : Prop where
  operationId_set : r.operationId.isSome
  outputFingerprint_set : r.outputFingerprint.isSome
  domains_nodup : (r.numericAllocated.map (·.1)).Nodup
  evidence : ∀ e ∈ r.indexArtifacts, ∃ idxPath status sourceSha256 backendId tablePath outputSha256,
    idxEvidence rt sha256 idxPath status sourceSha256 backendId tablePath outputSha256 = some e ∧
      ∀ path ∈ tablePath, IsPlanPath rt path

variable {r : TwoPassResult}

theorem nodup_numericPairs (h : (r.numericAllocated.map (·.1)).Nodup) : (r.numericPairs.map (·.1)).Nodup := by
  unfold TwoPassResult.numericPairs
  rw [List.map_map]
  exact h

theorem sortedBy_map_fst {β γ : Type*} (f : β → γ) (items : List (Text × β)) :
    sortedBy Prod.fst (items.map fun item => (item.1, f item.2)) =
      (sortedBy Prod.fst items).map fun item => (item.1, f item.2) := by
  symm
  apply List.map_insertionSort
  intro a _ b _
  exact Iff.rfl

theorem numericFromItems_numericPairs : numericFromItems py (sortedObject r.numericPairs) =
    .ok ((sortedBy Prod.fst r.numericAllocated).map fun item => (item.1, (item.2 : ℤ))) := by
  unfold sortedObject TwoPassResult.numericPairs numericFromItems
  rw [sortedBy_map_fst fun n : ℕ => Json.int n]
  dsimp only
  rw [List.mapM_map]
  apply mapM_eq_ok_map
  intro item _
  simp [py.int_int, py.str_str]

theorem kept_summary (s : RelationPassSummary) : Json.Kept plainHook (dictJson s.asdict) := by
  apply kept_dictJson
  · have hkeys : s.asdict.map (·.1) = summaryKeys := rfl
    rw [hkeys]
    decide
  · intro e he
    simp only [RelationPassSummary.asdict, List.mem_cons, List.not_mem_nil, or_false] at he
    rcases he with rfl | rfl | rfl | rfl | rfl | rfl | rfl | rfl | rfl | rfl | rfl | rfl <;> trivial

theorem kept_optionalText (s : Option Text) : Json.Kept plainHook (optionalText s) := by
  cases s <;> trivial

theorem kept_evidence (e : StandaloneIdxEvidence) : Json.Kept plainHook (dictJson e.toDict) := by
  apply kept_dictJson
  · have hkeys : e.toDict.map (·.1) = evidenceKeys := rfl
    rw [hkeys]
    decide
  · intro entry hentry
    simp only [StandaloneIdxEvidence.toDict, List.mem_cons, List.not_mem_nil, or_false] at hentry
    rcases hentry with rfl | rfl | rfl | rfl | rfl | rfl | rfl | rfl | rfl
    all_goals first | trivial | exact kept_optionalText _

theorem nodup_receiptPayload (r : TwoPassResult) : (r.receiptPayload.map (·.1)).Nodup := by
  have hkeys : r.receiptPayload.map (·.1) = ["schema_version", "tables_written", "pass1_records_scanned",
    "pass1_deleted_scanned", "pass2_records_written", "text_allocated", "text_reused", "numeric_allocated",
    "temporal_offset_allocated", "relations", "evidence_spool_bytes", "read_streams", "operation_id",
    "output_fingerprint", "protected_state_created", "index_artifacts"] := rfl
  rw [hkeys]
  decide

theorem kept_receipt (h : (r.numericAllocated.map (·.1)).Nodup) : Json.Kept plainHook (dictJson r.receiptPayload) := by
  apply kept_dictJson (nodup_receiptPayload r)
  intro e he
  simp only [TwoPassResult.receiptPayload, List.mem_cons, List.not_mem_nil, or_false] at he
  rcases he with rfl | rfl | rfl | rfl | rfl | rfl | rfl | rfl | rfl | rfl | rfl | rfl | rfl | rfl | rfl | rfl
  · trivial
  · exact kept_arr fun _ _ => trivial
  · trivial
  · trivial
  · trivial
  · trivial
  · trivial
  · apply kept_sortedObject (nodup_numericPairs h)
    intro p hp
    obtain ⟨item, -, rfl⟩ := List.mem_map.mp hp
    trivial
  · trivial
  · exact kept_arr fun s _ => kept_summary s
  · trivial
  · exact kept_arr fun item _ => ⟨trivial, trivial, trivial⟩
  · exact kept_optionalText _
  · exact kept_optionalText _
  · trivial
  · exact kept_arr fun e _ => kept_evidence e

/-- The result that a retry reports: marked as reused, with its dictionary in the order of its keys. -/
def TwoPassResult.reused (r : TwoPassResult) : TwoPassResult :=
  { r with reusedExisting := true, numericAllocated := sortedBy Prod.fst r.numericAllocated }

theorem storedFromPayload_receipt (h : EngineResult rt sha256 r) :
    storedFromPayload rt sha256 py (dictJson r.receiptPayload) = .ok r.reused.stored := by
  have hrelations : (r.relations.map fun s => dictJson s.asdict).mapM summaryFromItem =
      .ok (r.relations.map fun s => s.asdict.map (·.2)) := by
    rw [List.mapM_map]
    exact mapM_eq_ok_map fun s _ => summaryFromItem_asdict s
  have hevidence : (r.indexArtifacts.map fun e => dictJson e.toDict).mapM (evidenceFromItem rt sha256) =
      .ok (r.indexArtifacts.map id) := by
    rw [List.mapM_map]
    apply mapM_eq_ok_map
    intro e he
    obtain ⟨idxPath, status, sourceSha256, backendId, tablePath, outputSha256, hidx, htable⟩ := h.evidence e he
    exact evidenceFromItem_toDict (new_idxEvidence hidx htable)
  have hstreams : (r.readStreams.map fun item => Json.arr [.str item.1, .str item.2]).mapM (streamFromItem py) =
      .ok (r.readStreams.map id) := by
    rw [List.mapM_map]
    apply mapM_eq_ok_map
    intro item _
    simp [streamFromItem, indexed, required, py.str_str]
  have htables : r.tablesWritten.map (py.str ∘ Json.str) = r.tablesWritten := by
    apply List.map_id''
    exact py.str_str
  have hnumeric : numericFromItems py (sortedObject r.numericPairs) =
      .ok ((sortedBy Prod.fst r.numericAllocated).map fun item => (item.1, (item.2 : ℤ))) := numericFromItems_numericPairs
  obtain ⟨operationId, hoperation⟩ := Option.isSome_iff_exists.mp h.operationId_set
  obtain ⟨outputFingerprint, houtput⟩ := Option.isSome_iff_exists.mp h.outputFingerprint_set
  rw [List.map_id] at hevidence hstreams
  simp only [dictJson, sortedObject] at hrelations hevidence hnumeric
  simp only [dictJson, sortedObject, storedFromPayload, valueAt_dict]
  simp [TwoPassResult.receiptPayload, TwoPassResult.stored, TwoPassResult.reused, required, refuseIf, jsonText?, iterate,
    dictJson, sortedObject, optionalText, hrelations, hevidence, hstreams, hnumeric, htables, hoperation, houtput,
    py.int_int, py.str_str, py.bool_bool]

theorem resultFromReceiptText_eq (h : EngineResult rt sha256 r) :
    resultFromReceiptText rt sha256 py r.receiptText = .ok r.reused.stored := by
  have hread : Json.loads (.valueError "") plainHook r.receiptText = .ok (dictJson r.receiptPayload) :=
    Json.loads_dumps (kept_receipt h.domains_nodup)
  rw [resultFromReceiptText, hread, ok_bind, storedFromPayload_receipt h]

/-- The texts do what the receipts of a publication's state do, with the dictionary in the order of its keys. -/
theorem resultFromReceiptText_refines (h : EngineResult rt sha256 r) :
    resultFromReceiptText rt sha256 py r.receiptText =
      (resultFromReceipt (resultReceipt { r with numericAllocated := sortedBy Prod.fst r.numericAllocated })).map
        TwoPassResult.stored := by
  rw [resultFromReceiptText_eq h]
  rfl

/-- The receipt of a result of the engine is accepted and gives that result back, marked as reused; only the order
in which its dictionary lists the domains is lost. -/
theorem resultFromReceiptText_receiptText (h : EngineResult rt sha256 r) : ∃ result : TwoPassResult,
    resultFromReceiptText rt sha256 py r.receiptText = .ok result.stored ∧
      result.numericAllocated.Perm r.numericAllocated ∧
        { result with numericAllocated := r.numericAllocated } = { r with reusedExisting := true } := by
  exact ⟨r.reused, resultFromReceiptText_eq h, sortedBy_perm Prod.fst _, rfl⟩

def plainBuiltins : PythonBuiltins where
  int
    | .int n => .ok n
    | .bool b => .ok b.toInt
    | _ => .error (.typeError "not a number")
  str
    | .str s => s
    | value => value.dumps
  bool
    | .bool b => b
    | .null => false
    | _ => true
  int_int _ := rfl
  str_str _ := rfl
  bool_bool _ := rfl

def sampleDigest (_ : List UInt8) : Text := List.replicate 64 'a'

def rebuiltIdx : StandaloneIdxEvidence where
  artifactId := "idx-".toList ++ sampleDigest []
  artifactPath := "codes.idx".toList
  status := "REBUILT_VERIFIED".toList
  sourceSha256 := sampleDigest []
  backendId := some "vfp".toList
  tablePath := some "codes.dbf".toList
  outputSha256 := some (sampleDigest [])

def rebuiltResult : TwoPassResult where
  tablesWritten := ["codes.dbf".toList]
  passOneRecordsScanned := 3
  passOneDeletedScanned := 1
  passTwoRecordsWritten := 3
  textAllocated := 2
  textReused := 0
  numericAllocated := [("key-b".toList, 2), ("key-a".toList, 1)]
  temporalOffsetAllocated := true
  relations := [⟨"orders".toList, true, 3, 3, 0, 0, 2, 2, 3, 0, true, true⟩]
  evidenceSpoolBytes := 4096
  readStreams := [("pass1".toList, "codes.dbf".toList)]
  operationId := some "op-1".toList
  outputFingerprint := some ("out-".toList ++ sampleDigest [])
  reusedExisting := false
  protectedStateCreated := true
  indexArtifacts := [rebuiltIdx]

theorem resultFromReceiptText_rebuilt : EngineResult asciiRuntime sampleDigest rebuiltResult ∧
    ∃ result : TwoPassResult,
      resultFromReceiptText asciiRuntime sampleDigest plainBuiltins rebuiltResult.receiptText = .ok result.stored ∧
        result.numericAllocated.Perm rebuiltResult.numericAllocated ∧
          { result with numericAllocated := rebuiltResult.numericAllocated } =
            { rebuiltResult with reusedExisting := true } := by
  have hplan : normalizedRelativePath asciiRuntime "codes.dbf".toList = some "codes.dbf".toList := by decide
  have hidx : idxEvidence asciiRuntime sampleDigest "codes.idx".toList "REBUILT_VERIFIED".toList (sampleDigest [])
      (some "vfp".toList) (some "codes.dbf".toList) (some (sampleDigest [])) = some rebuiltIdx := by decide
  have h : EngineResult asciiRuntime sampleDigest rebuiltResult := by
    refine ⟨rfl, rfl, by decide, ?_⟩
    intro e he
    obtain rfl := List.mem_singleton.mp he
    refine ⟨_, _, _, _, _, _, hidx, ?_⟩
    intro path hpath
    obtain rfl := Option.some.inj hpath
    exact ⟨_, hplan⟩
  exact ⟨h, resultFromReceiptText_receiptText h⟩

end DbfAnonymizer.Engine
