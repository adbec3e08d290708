import DbfAnonymizer.Relationships.Compatibility

/-! The numeric columns of a compatible document: one treatment each, and one reversible group at most. -/
namespace DbfAnonymizer.Relationships
open Lib

section Filing
variable {strategy : NumericStrategy} {scan scan' : OverlapScan} {m : RelationMember}

def filedMembers (g : RelationGroup) : List (NumericStrategy × RelationMember) :=
  g.members.map (g.numericStrategy, ·)

/-- Every scanned numeric column is filed under the strategy of its group. -/
def Filed (scanned : List (NumericStrategy × RelationMember)) (scan : OverlapScan) : Prop :=
  ∀ entry ∈ scanned, entry.2.isNumericMember = true →
    (entry.1 = .reversibleBijective → entry.2.column ∈ scan.numericReversible) ∧
      (entry.1 = .identity → entry.2.column ∈ scan.numericIdentity)

theorem file_keeps (scan : OverlapScan) (strategy : NumericStrategy) (m : RelationMember) :
    scan.numericReversible ⊆ (scan.file strategy m).numericReversible ∧
      scan.numericIdentity ⊆ (scan.file strategy m).numericIdentity := by
  unfold OverlapScan.file
  split_ifs
  · cases strategy with
    | identity => exact ⟨List.Subset.refl _, List.subset_append_left _ _⟩
    | reversibleBijective => exact ⟨List.subset_append_left _ _, List.Subset.refl _⟩
  · exact ⟨List.Subset.refl _, List.Subset.refl _⟩

theorem file_files (hn : m.isNumericMember = true) :
    (strategy = .reversibleBijective → m.column ∈ (scan.file strategy m).numericReversible) ∧
      (strategy = .identity → m.column ∈ (scan.file strategy m).numericIdentity) := by
  unfold OverlapScan.file
  rw [if_pos hn]
  cases strategy with
  | identity =>
    exact ⟨(nomatch ·), fun _ => List.mem_append_right _ (List.mem_singleton.mpr rfl)⟩
  | reversibleBijective =>
    exact ⟨fun _ => List.mem_append_right _ (List.mem_singleton.mpr rfl), (nomatch ·)⟩

theorem scanMember_files {scanned : List (NumericStrategy × RelationMember)} (hi : Filed scanned scan)
    (h : scanMember strategy scan m = .ok scan') : Filed (scanned ++ [(strategy, m)]) scan' := by
  have hfiled : ∃ base : OverlapScan, scan' = base.file strategy m ∧
      base.numericReversible = scan.numericReversible ∧ base.numericIdentity = scan.numericIdentity := by
    unfold scanMember at h
    split at h
    · split_ifs at h
      exact ⟨scan, (Except.ok.inj h).symm, rfl, rfl⟩
    · exact ⟨_, (Except.ok.inj h).symm, rfl, rfl⟩
  obtain ⟨base, rfl, hrev, hid⟩ := hfiled
  have hkept := file_keeps base strategy m
  rw [hrev, hid] at hkept
  intro entry hentry hn
  rcases List.mem_append.mp hentry with hentry | hentry
  · obtain ⟨hr, hi⟩ := hi entry hentry hn
    exact ⟨fun h => hkept.1 (hr h), fun h => hkept.2 (hi h)⟩
  · rw [List.mem_singleton.mp hentry] at hn ⊢
    exact file_files hn

theorem scanGroup_files {codecs : Transforms.Codecs} {scanned : List (NumericStrategy × RelationMember)}
    {g : RelationGroup} (hi : Filed scanned scan) (h : scanGroup codecs scan g = .ok scan') :
    Filed (scanned ++ filedMembers g) scan' := by
  unfold scanGroup at h
  obtain ⟨-, -, hfold⟩ := bind_eq_ok.mp h
  have hrun := foldlM_induction []
    (fun (done : List RelationMember) scan => Filed (scanned ++ done.map (g.numericStrategy, ·)) scan)
    (fun done m _ _ hdone hstep => by
      have hnext := scanMember_files hdone hstep
      rwa [List.append_assoc, ← List.map_singleton (f := (g.numericStrategy, ·)), ← List.map_append] at hnext)
    (by simpa using hi) hfold
  simpa [filedMembers] using hrun

end Filing

section Document
variable {codecs : Transforms.Codecs} {hashing : Hashing} {g g' : RelationGroup} {m m' : RelationMember}

/-- No numeric column is declared reversible in one group and identical in another. -/
theorem column_ne_of_reversible_identity {d : RelationshipDocument}
    (h : validateDocumentCompatibility codecs hashing d = .ok ()) (hg : g ∈ d.groups)
    (hr : g.numericStrategy = .reversibleBijective) (hm : m ∈ g.members) (hn : m.isNumericMember = true)
    (hg' : g' ∈ d.groups) (hid : g'.numericStrategy = .identity) (hm' : m' ∈ g'.members)
    (hn' : m'.isNumericMember = true) : m.column ≠ m'.column := by
  obtain ⟨scan, hscan, h⟩ := bind_eq_ok.mp h
  obtain ⟨_, hdisjoint, -⟩ := bind_eq_ok.mp h
  rw [refuseIf_eq_ok] at hdisjoint
  have hfiled := foldlM_induction []
    (fun (done : List RelationGroup) scan =>
      Filed (done.flatMap filedMembers) scan)
    (fun done g _ _ hi hstep => by
      rw [List.flatMap_append, List.flatMap_singleton]
      exact scanGroup_files hi hstep)
    (show Filed (([] : List RelationGroup).flatMap filedMembers) ⟨[], [], []⟩ from
      fun _ hentry => by cases hentry) hscan
  have hmem : ∀ {g : RelationGroup} {m : RelationMember}, g ∈ d.groups → m ∈ g.members →
      (g.numericStrategy, m) ∈ ([] ++ d.groups).flatMap filedMembers := by
    intro g m hg hm
    exact List.mem_flatMap.mpr ⟨g, by simpa using hg, List.mem_map_of_mem hm⟩
  have hcolumn := (hfiled _ (hmem hg hm) hn).1 hr
  have hcolumn' := (hfiled _ (hmem hg' hm') hn').2 hid
  intro heq
  rw [← heq] at hcolumn'
  exact hdisjoint (List.any_eq_true.mpr ⟨m.column, hcolumn, decide_eq_true hcolumn'⟩)

theorem AcceptedDocument.reversible_group_unique (A : AcceptedDocument)
    (h : validateDocumentCompatibility codecs hashing A.document = .ok ())
    (hcf : hashing.CollisionFree A.document) (hg : g ∈ A.document.groups)
    (hr : g.numericStrategy = .reversibleBijective) (hm : m ∈ g.members) (hn : m.isNumericMember = true)
    (hg' : g' ∈ A.document.groups) (hr' : g'.numericStrategy = .reversibleBijective) (hm' : m' ∈ g'.members)
    (hn' : m'.isNumericMember = true) (hc : m.column = m'.column) : g = g' := by
  have hid := numericKeyDomainId_eq_of_column_eq h hg hr hm hn hg' hr' hm' hn' hc
  exact A.relationId_inj hg hg' (hcf g hg g' hg' hid)

end Document
end DbfAnonymizer.Relationships
