import DbfAnonymizer.Engine.TwoPassEvidence
import DbfAnonymizer.Lib.TableExtension

/-! Both passes of one run leave the same evidence of every declared relation. -/
namespace DbfAnonymizer.Engine
open Transforms Relationships Vault Lib Verification

/-- The public reader's types: character fields hold text or NULL, and numeric ones hold no text. -/
structure TypedRecords (source : DatasetFiles) : Prop where
  text : ∀ path stored, source.table path = some stored → ∀ field ∈ stored.schema.fields,
    field.dbfType = 'C' ∨ field.dbfType = 'V' → ∀ record ∈ stored.records,
      record.values field.name = .null ∨ ∃ t, record.values field.name = .text t
  numeric : ∀ path stored, source.table path = some stored → ∀ field ∈ stored.schema.fields,
    field.dbfType = 'I' ∨ field.dbfType = 'N' → ∀ record ∈ stored.records, ∀ t, record.values field.name ≠ .text t

/-- Integers by one permutation, text by another, everything else as it is. -/
def keyImage (σ : Equiv.Perm ℤ) (τ : Equiv.Perm Text) : Value → Value
  | .int n => .int (σ n)
  | .text t => .text (τ t)
  | value => value

theorem keyImage_keyPreserving (σ : Equiv.Perm ℤ) (τ : Equiv.Perm Text) : KeyPreserving (keyImage σ τ) where
  injective := by
    intro a b h
    cases a <;> cases b <;> simp [keyImage] at h ⊢ <;> exact h
  text_to_text t := ⟨τ t, rfl⟩
  int_to_int n := ⟨σ n, rfl⟩
  null_iff v := by cases v <;> simp [keyImage]

/-- Permutations that a run's vault follows on one relation, and that keep what the run keeps. -/
structure FollowsVault (hashing : Hashing) (policy : ResolvedPolicy) (document : RelationshipDocument)
    (vault : VaultState) (g : RelationGroup) (σ : Equiv.Perm ℤ) (τ : Equiv.Perm Text) : Prop where
  numeric : g.numericStrategy = .reversibleBijective → ∀ n p, vault.numericPseudonym
    (hashing.numericKeyDomainId (hashing.relationshipFingerprint document) g.relationId) n = some p → σ n = p
  numeric_kept : g.numericStrategy = .identity → σ = 1
  text : policy.textDefaultAction = .pseudonymizeReversible → τ [] = [] ∧
    ∀ t p, vault.textPseudonym globalTextDomainId t = some p → t ≠ [] → τ t = p
  text_kept : policy.textDefaultAction ≠ .pseudonymizeReversible → τ = 1

theorem exists_followsVault (hashing : Hashing) (policy : ResolvedPolicy) (document : RelationshipDocument)
    {vault : VaultState} (hsafe : ([] : Text) ∉ (vault.textMappings globalTextDomainId).table.values)
    (g : RelationGroup) : ∃ σ τ, FollowsVault hashing policy document vault g σ τ := by
  have hnumeric : ∃ σ : Equiv.Perm ℤ, (g.numericStrategy = .reversibleBijective → ∀ n p, vault.numericPseudonym
        (hashing.numericKeyDomainId (hashing.relationshipFingerprint document) g.relationId) n = some p → σ n = p) ∧
      (g.numericStrategy = .identity → σ = 1) := by
    cases hstrategy : g.numericStrategy with
    | identity => exact ⟨1, nofun, fun _ => rfl⟩
    | reversibleBijective =>
      obtain ⟨σ, hσ⟩ := (vault.numericKeyMappings
        (hashing.numericKeyDomainId (hashing.relationshipFingerprint document) g.relationId)).exists_perm
      exact ⟨σ, fun _ n p hp => hσ (n, p) (BijectiveTable.valueOf?_eq_some_iff.mp hp), nofun⟩
  have htext : ∃ τ : Equiv.Perm Text, (policy.textDefaultAction = .pseudonymizeReversible → τ [] = [] ∧
        ∀ t p, vault.textPseudonym globalTextDomainId t = some p → t ≠ [] → τ t = p) ∧
      (policy.textDefaultAction ≠ .pseudonymizeReversible → τ = 1) := by
    by_cases hpolicy : policy.textDefaultAction = .pseudonymizeReversible
    · obtain ⟨τ, hempty, hτ⟩ := BijectiveTable.exists_perm_fixing _ hsafe
      refine ⟨τ, fun _ => ⟨hempty, ?_⟩, fun h => absurd hpolicy h⟩
      intro t p hp hne
      exact hτ (t, p) (BijectiveTable.valueOf?_eq_some_iff.mp hp) hne
    · exact ⟨1, fun h => absurd h hpolicy, fun _ => rfl⟩
  obtain ⟨σ, hσ, hσ'⟩ := hnumeric
  obtain ⟨τ, hτ, hτ'⟩ := htext
  exact ⟨σ, τ, hσ, hσ', hτ, hτ'⟩

section Columns
variable {codecs : Codecs} {P : PlannedDataset} {B : BoundDocument codecs P.hashing P.tables} {g : RelationGroup}
  {m : RelationMember} {t : TableDirective} {stored : StoredTable} {record out : DirectRecord}

theorem exists_memberField (hg : g ∈ B.document.groups) (hm : m ∈ g.members) (hbehind : P.Behind t stored)
    (hpath : t.relativePath = m.tablePath) :
    ∃ field ∈ stored.schema.fields, field.name = m.fieldName ∧ field.dbfType = m.dbfType.char := by
  obtain ⟨b, -, hfact, htype, -⟩ := find?_bindings B.bound hg hm
  have hcol : b.1 = m.column := by simpa using List.find?_some hfact
  obtain ⟨table, htable, hmem⟩ := List.mem_flatMap.mp (List.mem_of_find?_eq_some hfact)
  obtain ⟨field, hfield, rfl⟩ := List.mem_map.mp hmem
  obtain ⟨stored', hstored', hschema⟩ := P.readable table htable
  have hsame : table.1 = t.relativePath := (Prod.mk.inj hcol).1.trans hpath.symm
  rw [hsame, hbehind.stored_eq, Option.some.injEq] at hstored'
  refine ⟨field, ?_, (Prod.mk.inj hcol).2, htype.symm⟩
  rw [hstored', hschema]
  exact hfield

theorem transformed_eq_of_path {t' : TableDirective} (hbehind : P.Behind t stored) (ht' : t' ∈ P.plan.tables)
    (hpath : t'.relativePath = t.relativePath) : t'.transformed = t.transformed := by
  obtain ⟨stored', hbehind'⟩ := PlannedDataset.exists_behind ht'
  have hstored := hbehind'.stored_eq
  rw [hpath, hbehind.stored_eq, Option.some.injEq] at hstored
  obtain ⟨directives, hmap, hall⟩ := hbehind.bound.transformed_eq
  obtain ⟨directives', hmap', hall'⟩ := hbehind'.bound.transformed_eq
  rw [hpath, ← hstored, hmap, Except.ok.injEq] at hmap'
  rw [hall, hall', hmap']

theorem memberType_toUpper (m : RelationMember) : m.dbfType.char.toUpper = m.dbfType.char := by
  cases m.dbfType with
  | _ => decide

theorem memberType_of_numeric (h : m.isNumericMember = true) : m.dbfType.char = 'I' ∨ m.dbfType.char = 'N' := by
  cases hmember : m.dbfType with
  | c => simp [RelationMember.isNumericMember, hmember] at h
  | v => simp [RelationMember.isNumericMember, hmember] at h
  | i => exact Or.inl rfl
  | n => exact Or.inr rfl

theorem memberType_of_text (h : m.isNumericMember = false) : m.dbfType.char = 'C' ∨ m.dbfType.char = 'V' := by
  cases hmember : m.dbfType with
  | c => exact Or.inl rfl
  | v => exact Or.inr rfl
  | i => simp [RelationMember.isNumericMember, hmember] at h
  | n => simp [RelationMember.isNumericMember, hmember] at h

section Images
variable {sources : PassTwoSources} {σ : Equiv.Perm ℤ} {τ : Equiv.Perm Text} {d : FieldDirective} {value value' : Value}

theorem numericImage (hfollows : FollowsVault P.hashing P.policy B.document sources.vault g σ τ)
    (hstrategy : g.numericStrategy = .reversibleBijective) (hdomain : d.numericDomainId =
      some (P.hashing.numericKeyDomainId (P.hashing.relationshipFingerprint B.document) g.relationId))
    (h : transformField sources d value = .ok value') : value' = keyImage σ τ value := by
  unfold transformField at h
  simp only [hdomain] at h
  cases value with
  | null =>
    cases h
    rfl
  | int n =>
    dsimp only at h
    cases hp : sources.vault.numericPseudonym
        (P.hashing.numericKeyDomainId (P.hashing.relationshipFingerprint B.document) g.relationId) n with
    | none => simp [hp] at h
    | some p =>
      simp only [hp, Except.ok.injEq] at h
      rw [← h, keyImage, hfollows.numeric hstrategy n p hp]
  | _ => cases h

theorem textImage (hfollows : FollowsVault P.hashing P.policy B.document sources.vault g σ τ)
    (hpolicy : P.policy.textDefaultAction = .pseudonymizeReversible)
    (hsources : ∀ domainId, sources.textDomainId = some domainId → domainId = globalTextDomainId)
    (hd : d.numericDomainId = none ∧ d.action = .pseudonymizeReversible)
    (htyped : value = .null ∨ ∃ t, value = .text t) (h : transformField sources d value = .ok value') :
    value' = keyImage σ τ value := by
  obtain ⟨hempty, hmapped⟩ := hfollows.text hpolicy
  unfold transformField at h
  simp only [hd.1, hd.2] at h
  rcases htyped with hnull | ⟨text, htext⟩
  · subst hnull
    cases h
    rfl
  · subst htext
    split_ifs at h with hnull
    · cases h
      unfold Value.isNullOrEmpty at hnull
      have hnil : text = [] := by simpa using hnull
      rw [hnil, keyImage, hempty]
    · have hne : text ≠ [] := by
        intro hnil
        exact hnull (by rw [hnil]; rfl)
      cases hdomain : sources.textDomainId with
      | none => simp [hdomain] at h
      | some domainId =>
        obtain rfl := hsources domainId hdomain
        simp only [hdomain, PassTwoSources.str] at h
        cases hp : sources.vault.textPseudonym globalTextDomainId text with
        | none => simp [hp] at h
        | some p =>
          simp only [hp, Except.ok.injEq] at h
          rw [← h, keyImage, hmapped text p hp hne]

/-- What pass two leaves of a member's column is its image under permutations that follow the vault. -/
theorem memberColumn_image (hdocument : P.document = some B.document) (htyped : TypedRecords P.source)
    (hg : g ∈ B.document.effectiveGroups) (hm : m ∈ g.members) (ht : t ∈ P.plan.tables)
    (hpath : t.relativePath = m.tablePath) (hbehind : P.Behind t stored) (hrecord : record ∈ stored.records)
    (hsources : ∀ domainId, sources.textDomainId = some domainId → domainId = globalTextDomainId)
    (hfollows : FollowsVault P.hashing P.policy B.document sources.vault g σ τ)
    (hwritten : RecordWritten sources t stored.schema record out) :
    out.values m.fieldName = keyImage σ τ (record.values m.fieldName) := by
  have hgroup := RelationshipDocument.mem_groups_of_mem_effectiveGroups hg
  have hplan : buildEnginePlan P.policy P.hashing (some B.document) P.tables = .ok P.plan := hdocument ▸ P.built
  obtain ⟨field, hfield, hname, htype⟩ := exists_memberField hgroup hm hbehind hpath
  have htext := fun hchar => htyped.text _ _ hbehind.stored_eq field hfield hchar record hrecord
  have hnumeric := fun hchar => htyped.numeric _ _ hbehind.stored_eq field hfield hchar record hrecord
  rw [htype, hname] at htext hnumeric
  by_cases hexists : ∃ d ∈ t.transformed, d.fieldName = m.fieldName
  · obtain ⟨d, hd, hdname⟩ := hexists
    have hof : d ∈ P.plan.directivesOf m := mem_directivesOf.mpr ⟨t, ht, hpath, hd, hdname⟩
    have hdtype : d.dbfType = m.dbfType.char := by
      obtain ⟨other, hother, hdirective, hsame⟩ := hbehind.exists_field hd
      have hfields := List.inj_on_of_nodup_map hbehind.names_nodup (List.mem_of_mem_filter hother) hfield
        (hsame.symm.trans (hdname.trans hname.symm))
      rw [(fieldDirective_eq_some hdirective).2.2.1, hfields, htype, memberType_toUpper]
    have himage := hwritten.transformed d hd
    rw [hdname] at himage
    cases hn : m.isNumericMember with
    | true =>
      cases hstrategy : g.numericStrategy with
      | identity => exact absurd hdtype (dbfType_ne_of_identity hplan B.compatible hgroup hstrategy hm hn hof).2
      | reversibleBijective =>
        exact numericImage hfollows hstrategy (numericDomainId_of_member hplan B.compatible hg hstrategy hm hn hof) himage
    | false =>
      have hpolicy := (exists_textDirective_iff hplan B.compatible B.bound hgroup hm hn).mp ⟨d, hof, hdtype⟩
      exact textImage hfollows hpolicy hsources (textDirective_of_member hplan B.compatible hgroup hm hn hof hdtype)
        (htext (memberType_of_text hn)) himage
  · have hnodirective : P.plan.directivesOf m = [] := by
      rw [List.eq_nil_iff_forall_not_mem]
      intro d hd
      obtain ⟨t', ht', hpath', hmem, hdname⟩ := mem_directivesOf.mp hd
      rw [transformed_eq_of_path hbehind ht' (hpath'.trans hpath.symm)] at hmem
      exact hexists ⟨d, hmem, hdname⟩
    have happlication : field ∈ stored.schema.applicationFields := by
      apply List.mem_filter.mpr
      refine ⟨hfield, ?_⟩
      rw [decide_eq_true_eq, FieldInfo.isSystemType, htype]
      cases m.dbfType with
      | _ => decide
    have hkept : out.values m.fieldName = record.values m.fieldName := by
      rw [hwritten.kept m.fieldName, ← hname]
      · exact withoutSystemFields_application hbehind.names_nodup happlication record.values
      · intro hmem
        obtain ⟨d, hd, hdname⟩ := List.mem_map.mp hmem
        exact hexists ⟨d, hd, hdname⟩
    rw [hkept]
    cases hn : m.isNumericMember with
    | true =>
      have hstrategy : g.numericStrategy = .identity := by
        cases hcase : g.numericStrategy with
        | identity => rfl
        | reversibleBijective =>
          obtain ⟨t', ht', hpath', d, hd, hdname⟩ := exists_numeric_directive B hplan hg hcase hm hn
          have hof := mem_directivesOf.mpr ⟨t', ht', hpath', hd, hdname⟩
          rw [hnodirective] at hof
          cases hof
      rw [hfollows.numeric_kept hstrategy]
      cases hvalue : record.values m.fieldName with
      | text text => exact absurd hvalue (hnumeric (memberType_of_numeric hn) text)
      | _ => rfl
    | false =>
      have hpolicy : P.policy.textDefaultAction ≠ .pseudonymizeReversible := by
        intro hpolicy
        obtain ⟨d, hof, -⟩ := (exists_textDirective_iff hplan B.compatible B.bound hgroup hm hn).mpr hpolicy
        rw [hnodirective] at hof
        cases hof
      rw [hfollows.text_kept hpolicy]
      rcases htext (memberType_of_text hn) with hnull | ⟨text, hvalue⟩
      · rw [hnull]
        rfl
      · rw [hvalue]
        rfl

end Images
end Columns

section Run
variable {codecs : Codecs} {P : PlannedDataset} {B : BoundDocument codecs P.hashing P.tables} {env : PassOneEnvironment}
  {vault : VaultState} {st : PassOneState} {sources : PassTwoSources} {written : List TableWritten}

/-- A relation's columns behind pass two are those before it, under one permutation for each kind of key. -/
theorem transformedDataset_of_rewritten (hdocument : P.document = some B.document) (hsides : SidesInOneTable B.document)
    (htyped : TypedRecords P.source) {g : RelationGroup} (hg : g ∈ B.document.effectiveGroups) {r : RelationDirective}
    (hr : relationDirective (numericGroups P.hashing B.document) g = .ok r)
    (hsources : ∀ domainId, sources.textDomainId = some domainId → domainId = globalTextDomainId)
    {σ : Equiv.Perm ℤ} {τ : Equiv.Perm Text} (hfollows : FollowsVault P.hashing P.policy B.document sources.vault g σ τ)
    (hwritten : List.Forall₂ (TableRewritten P sources) P.plan.tables written) :
    TransformedDataset r (fun _ => keyImage σ τ) (valuesBefore P.plan P.source) (valuesAfter written) := by
  unfold TransformedDataset valuesBefore valuesAfter
  rw [List.forall₂_map_left_iff, List.forall₂_map_right_iff, List.forall₂_iff_get]
  rw [List.forall₂_iff_get] at hwritten
  refine ⟨hwritten.1, fun i hi hi' => ?_⟩
  obtain ⟨hpath, stored, hstored, hrecords⟩ := hwritten.2 i hi hi'
  have ht : P.plan.tables.get ⟨i, hi⟩ ∈ P.plan.tables := List.get_mem _ _
  generalize P.plan.tables.get ⟨i, hi⟩ = t at hpath hstored hrecords ht ⊢
  obtain ⟨other, hbehind⟩ := PlannedDataset.exists_behind ht
  obtain rfl := Option.some.inj (hstored.symm.trans hbehind.stored_eq)
  refine ⟨hpath.symm, ?_⟩
  dsimp only
  rw [DatasetFiles.recordsOf_eq hstored, List.forall₂_map_left_iff, List.forall₂_map_right_iff, List.forall₂_iff_get]
  rw [List.forall₂_iff_get] at hrecords
  refine ⟨hrecords.1, fun k hk hk' => ?_⟩
  intro role hside position hposition
  obtain ⟨-, first, hfirst, htable, hfields⟩ := relationDirective_side hr role
  have hmem : (r.sideFields role)[position] ∈ (sideMembers g role).map RelationMember.fieldName := by
    rw [← hfields]
    exact List.getElem_mem hposition
  obtain ⟨m, hm, hname⟩ := List.mem_map.mp hmem
  have hmpath : t.relativePath = m.tablePath := by
    rw [← hside, htable]
    exact hsides g hg role first (List.mem_of_mem_head? hfirst) m hm
  rw [← hname]
  exact memberColumn_image hdocument htyped hg (mem_members_of_mem_sideMembers hm) ht hmpath hbehind
    (List.get_mem _ _) hsources hfollows (hrecords.2 k hk hk')

theorem relationPassSummary_preserved {plan : EnginePlan} {before after : List (Text × List Values)}
    {first second : List RelationObservation} {r : RelationDirective}
    (hplan : buildEnginePlan P.policy P.hashing (some B.document) P.tables = .ok plan)
    (hbefore : observeDataset .before plan.relations before = .ok first)
    (hafter : observeDataset .after plan.relations after = .ok second) (batch : ℕ)
    {events : List (Option RelationObservation)} (hevents : events.reduceOption.Perm first)
    {shards : List (List RelationObservation)} (hshards : shards.flatten.Perm second) (hr : r ∈ plan.relations)
    {f : ℕ → Value → Value} (hf : ∀ i, KeyPreserving (f i)) (htransform : TransformedDataset r f before after) :
    EvidencePreserved (comparedSpool batch events shards) r (relationPassSummary (comparedSpool batch events shards) r) := by
  have hrel := comparableRelations_of_plan B.toAcceptedDocument hplan
  have hside := sideAgrees_comparedSpool hrel hr hbefore hafter batch hevents hshards
  choose hrows hmapped using hside
  choose rows hrows hagree using hrows
  apply evidencePreserved hf hagree
  intro role
  obtain ⟨rows', hrows', hagree'⟩ := hmapped role
  rw [relationRows_map hf htransform (hrows role), Except.ok.injEq] at hrows'
  exact hrows' ▸ hagree'

/-- Where each side of a relation lives in one table, a run reports every declared relation as verified, with the
same rows, NULLs, distinct keys, matches and orphans in both passes. -/
theorem runPassTwo_preserves_relations (hdocument : P.document = some B.document) (hsides : SidesInOneTable B.document)
    (htyped : TypedRecords P.source) (hdistinct : DistinctDomains P.plan env.temporalDomainId)
    (hinv : EngineVault env P vault) (h : passOne env P.plan P.source vault = some (.ok st)) {render : Value → Text}
    {spoolBytes : ℕ} {result : TwoPassResult} (hrun : runPassTwo env.batch P.plan P.source st.vault env.temporalDomainId
      st.outcome render spoolBytes st.spool.evidence = .ok (written, result)) :
    result.relations = compareRelations P.plan.relations (runSpool env.batch P written) ∧
      List.Forall₂ (EvidencePreserved (runSpool env.batch P written)) P.plan.relations result.relations := by
  have hdone := passOne_done hdistinct hinv h
  obtain ⟨scanned, -, -, hscan, -⟩ := passOne_eq_ok h
  obtain ⟨sources, hsources, hwrites, hresult⟩ := runPassTwo_eq_ok_iff.mp hrun
  have hrewritten : List.Forall₂ (TableRewritten P sources) P.plan.tables written := by
    obtain ⟨sources', hsources', hrewritten⟩ := runPassTwo_rewritten hrun
    rw [hsources, Except.ok.injEq] at hsources'
    exact hsources' ▸ hrewritten
  obtain ⟨-, rfl⟩ := passTwoSources_eq_ok_iff.mp hsources
  have hplan : buildEnginePlan P.policy P.hashing (some B.document) P.tables = .ok P.plan := hdocument ▸ P.built
  have hglobal : ∀ domainId, (if P.plan.textPresent then st.outcome.textDomainId else none) = some domainId →
      domainId = globalTextDomainId := by
    intro domainId hsome
    rw [hdone.textDomain] at hsome
    split_ifs at hsome
    exact (Option.some.inj hsome).symm
  have hsafe : ([] : Text) ∉ (st.vault.textMappings globalTextDomainId).table.values := by
    intro hmem
    exact (isSafeToken_iff.mp (hdone.engineVault.text.pseudonyms_safe [] hmem)).1 rfl
  have hevents : (P.plan.tables.flatMap (tableEvents P.plan P.source)).reduceOption.Perm
      (P.plan.tables.flatMap (tableEvents P.plan P.source)).reduceOption := .refl _
  have hcompared : result.relations = compareRelations P.plan.relations (runSpool env.batch P written) := by
    rw [hresult, passOne_evidence h, relations_acceptAll]
    rfl
  refine ⟨hcompared, ?_⟩
  rw [hcompared]
  have hrelations := relations_of_buildEnginePlan hplan
  rw [compareRelations, List.forall₂_map_right_iff, List.forall₂_same]
  intro r hr
  obtain ⟨g, hg, hgroup⟩ := exists_of_mem_mapM_ok hrelations hr
  obtain ⟨σ, τ, hfollows⟩ := exists_followsVault P.hashing P.policy B.document hsafe g
  exact relationPassSummary_preserved hplan (observeDataset_before hscan) (observeDataset_after hwrites) env.batch hevents
    (.refl _) hr (fun _ => keyImage_keyPreserving σ τ)
    (transformedDataset_of_rewritten hdocument hsides htyped hg hgroup hglobal hfollows hrewritten)

end Run

section Dated

def datedBound : BoundDocument singleByteCodecs datedOrders.hashing datedOrders.tables where
  toAcceptedDocument := sameTypeOrders.toAcceptedDocument
  compatible := sameTypeOrders.compatible
  bindings := sameTypeOrders.bindings
  bound := rfl

theorem datedSource_typed : TypedRecords datedSource := by
  have hstored : ∀ path stored, datedSource.table path = some stored →
      (∀ field ∈ stored.schema.fields, field.dbfType ≠ 'C' ∧ field.dbfType ≠ 'V') ∧
        ∀ record ∈ stored.records, ∀ name text, record.values name ≠ .text text := by
    intro path stored h
    unfold datedSource at h
    dsimp only at h
    split_ifs at h
    · cases h
      refine ⟨by decide, fun record hrecord name text => ?_⟩
      rcases List.mem_pair.mp hrecord with rfl | rfl <;> simp only [datedRecord] <;> split_ifs <;> simp
    · cases h
      refine ⟨by decide, fun record hrecord name text => ?_⟩
      rcases List.mem_pair.mp hrecord with rfl | rfl <;> simp only [datedRecord] <;> split_ifs <;> simp
  constructor
  · intro path stored h field hfield hchar
    obtain ⟨hc, hv⟩ := (hstored path stored h).1 field hfield
    rcases hchar with hchar | hchar
    · exact absurd hchar hc
    · exact absurd hchar hv
  · intro path stored h field _ _ record hrecord
    exact (hstored path stored h).2 record hrecord field.name

theorem datedOrders_preserves_relations : ∃ st written result,
    passOne datedEnvironment datedOrders.plan datedOrders.source .empty = some (.ok st) ∧
      runPassTwo 2 datedOrders.plan datedOrders.source st.vault ['t', 'd'] st.outcome (fun _ => []) 0
        st.spool.evidence = .ok (written, result) ∧
      result.relations = compareRelations datedOrders.plan.relations (runSpool 2 datedOrders written) ∧
      List.Forall₂ (EvidencePreserved (runSpool 2 datedOrders written)) datedOrders.plan.relations result.relations := by
  obtain ⟨st, out, hst, hout⟩ : ∃ st out, passOne datedEnvironment datedOrders.plan datedOrders.source .empty = some (.ok st) ∧
      runPassTwo 2 datedOrders.plan datedOrders.source st.vault ['t', 'd'] st.outcome (fun _ => []) 0
        st.spool.evidence = .ok out := ⟨_, _, rfl, rfl⟩
  obtain ⟨written, result⟩ := out
  have hsides : SidesInOneTable datedBound.document := by
    have hmembers : ∀ g ∈ sameTypeOrders.document.effectiveGroups, ∀ role ∈ [SideRole.parent, .foreign],
        ∀ m ∈ sideMembers g role, ∀ m' ∈ sideMembers g role, m.tablePath = m'.tablePath := by
      decide +kernel
    intro g hg role
    exact hmembers g hg role (by cases role <;> simp)
  exact ⟨st, written, result, hst, hout, runPassTwo_preserves_relations (B := datedBound) rfl hsides datedSource_typed
    datedOrders_distinct (engineVault_empty datedEnvironment datedOrders) hst hout⟩

end Dated
end DbfAnonymizer.Engine
