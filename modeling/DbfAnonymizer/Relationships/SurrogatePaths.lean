import DbfAnonymizer.Lib.SurrogatePairs
import DbfAnonymizer.Relationships.Respelling

/-! Table paths with surrogates: which documents the canonical bytes take for one another. -/
namespace DbfAnonymizer.Relationships
open Lib
open Lib.CodePoint (Unpaired Basic joined)

theorem quote_joined (path : List CodePoint) : Json.quote (joined path) = Json.quote path :=
  CodePoint.quote_congr (CodePoint.units_joined path)

theorem joined_of_unpaired {path : List CodePoint} (h : Unpaired path) : joined path = path :=
  CodePoint.eq_of_units (CodePoint.unpaired_joined path) h (CodePoint.units_joined path)

theorem basic_of_lt {path : List CodePoint} (h : ∀ c ∈ path, c.val < 0xd800) : Basic path := by
  have hunpaired : Unpaired path := by
    apply List.isChain_iff_forall_rel_of_append_cons_cons.mpr
    intro c d front back hpath hpair
    have hlt := h c (by simp [hpath])
    have hhigh := hpair.1.1
    omega
  exact ⟨hunpaired, fun c hc => (h c hc).trans (by decide)⟩

theorem toNat_lt_of_externalPath {value : Text} (h : ExternalPath value true) {c : Char} (hc : c ∈ value) : c.toNat < 0xd800 := by
  rcases h.character hc with rfl | hchar
  · decide
  · simp only [isExternalPathCharacter, Bool.or_eq_true, beq_iff_eq, isAlphanum_iff] at hchar
    rcases hchar with (((halpha | rfl) | rfl) | rfl) | rfl
    · omega
    all_goals decide

theorem TablePathAccepted.mem {χ : Type} [TextChar χ] [DecidableEq χ] {value path : List χ} (h : TablePathAccepted value path)
    {c : χ} (hc : c ∈ path) : c = TextChar.ofChar '/' ∨ c ∈ value := by
  by_cases hsep : isPathSeparator c = true
  · exact Or.inl (h.tablePath.slashes c hc hsep)
  · obtain ⟨part, hpart, hin⟩ := exists_mem_splitOnP hc (Bool.eq_false_of_not_eq_true hsep)
    rw [h.splitOnP_path] at hpart
    have hstrip : c ∈ strip value := (forall_of_mem_splitOnP (List.mem_filter.mp hpart).1 c hin).1
    have hfront := (List.rdropWhile_prefix isWhitespace _).subset hstrip
    exact Or.inr ((List.dropWhile_suffix isWhitespace).subset hfront)

/-- Paths of external metadata are written in characters below the surrogates. -/
theorem basic_of_external {item : Json CodePoint} {m : RelationMember CodePoint} (h : parseMember true item = .ok m) :
    Basic m.tablePath := by
  obtain ⟨pairs, -, haccepted⟩ := parseMember_eq_ok.mp h
  obtain ⟨path, htable, hbuilt⟩ := haccepted.built
  have hnormal := normalizeRelativeTablePath_eq_ok.mp hbuilt.tablePath
  obtain ⟨_, hexternal, htable⟩ := bind_eq_ok.mp htable
  obtain rfl := Except.ok.inj htable
  have hpath := (validateExternalMetadataPath_eq_ok.mp hexternal).2
  have hchars : ∀ c ∈ pathOrEmpty (valueOrNull pairs "table"), c.val < 0xd800 := by
    intro c hc
    cases hvalue : valueOrNull pairs "table" with
    | str value =>
      rw [hvalue] at hc hpath
      have hplain : (CodePoint.scalar? c).getD '\ufffd' ∈ jsonTextOrEmpty (.str value) := List.mem_map_of_mem hc
      have hlt := toNat_lt_of_externalPath hpath hplain
      unfold CodePoint.scalar? at hlt
      split_ifs at hlt with hvalid
      · exact hlt
      · exact absurd hlt (by decide)
    | _ =>
      rw [hvalue] at hc
      cases hc
  apply basic_of_lt
  intro c hc
  rcases hnormal.mem hc with rfl | hc
  · decide
  · exact hchars c hc

/-- Reading the surrogates in pairs, the canonical bytes tell a document up to the order of its lists. -/
theorem canonicalRelationshipBytes_joined {payload payload' : Json CodePoint} {d d' : RelationshipDocument CodePoint}
    (h : parseRelationshipDocument payload = .ok d) (h' : parseRelationshipDocument payload' = .ok d') :
    canonicalRelationshipBytes d = canonicalRelationshipBytes d' ↔ SameDocument (d.respelled joined) (d'.respelled joined) := by
  have hplaces : ∀ g ∈ d.groups, (g.members.map RelationMember.place).Nodup :=
    fun g hg => (groupBuilt_of_parsed h hg).nodup_places
  have hplaces' : ∀ g ∈ d'.groups, (g.members.map RelationMember.place).Nodup :=
    fun g hg => (groupBuilt_of_parsed h' hg).nodup_places
  have hunpaired : ∀ e : RelationshipDocument CodePoint, ∀ path ∈ (e.respelled joined).tablePaths, Unpaired path := by
    intro e path hpath
    rw [RelationshipDocument.tablePaths_respelled] at hpath
    obtain ⟨path, -, rfl⟩ := List.mem_map.mp hpath
    exact CodePoint.unpaired_joined path
  rw [← canonicalRelationshipBytes_respelled quote_joined hplaces, ← canonicalRelationshipBytes_respelled quote_joined hplaces',
    canonicalRelationshipBytes_inj CodePoint.unpaired_ofPlain CodePoint.unpaired_ofPlain CodePoint.quotedApart_unpaired
      (hunpaired d) (hunpaired d')]
  exact documentJson_eq_iff (distinctDocument_respelled h joined) (distinctDocument_respelled h' joined).envelope

theorem respelled_joined_of_unpaired {d : RelationshipDocument CodePoint} (h : ∀ path ∈ d.tablePaths, Unpaired path) :
    d.respelled joined = d :=
  d.respelled_eq_self fun path hpath => joined_of_unpaired (h path hpath)

theorem canonicalRelationshipBytes_unpaired {payload payload' : Json CodePoint} {d d' : RelationshipDocument CodePoint}
    (h : parseRelationshipDocument payload = .ok d) (h' : parseRelationshipDocument payload' = .ok d')
    (hpaths : ∀ path ∈ d.tablePaths, Unpaired path) (hpaths' : ∀ path ∈ d'.tablePaths, Unpaired path) :
    canonicalRelationshipBytes d = canonicalRelationshipBytes d' ↔ SameDocument d d' := by
  rw [canonicalRelationshipBytes_joined h h', respelled_joined_of_unpaired hpaths, respelled_joined_of_unpaired hpaths']

theorem canonicalRelationshipBytes_basic {payload payload' : Json CodePoint} {d d' : RelationshipDocument CodePoint}
    (h : parseRelationshipDocument payload = .ok d) (h' : parseRelationshipDocument payload' = .ok d')
    (hpaths : ∀ path ∈ d.tablePaths, Basic path) :
    canonicalRelationshipBytes d = canonicalRelationshipBytes d' ↔ SameDocument d d' := by
  have hunpaired : ∀ path ∈ d.tablePaths, Unpaired path := fun path hpath => (hpaths path hpath).1
  constructor
  · intro heq
    have hsame := (canonicalRelationshipBytes_joined h h').mp heq
    rw [respelled_joined_of_unpaired hunpaired] at hsame
    have hself : d'.respelled joined = d' := by
      apply RelationshipDocument.respelled_eq_self
      intro path hpath
      have hmem : joined path ∈ (d'.respelled joined).tablePaths := by
        rw [RelationshipDocument.tablePaths_respelled]
        exact List.mem_map_of_mem hpath
      exact CodePoint.joined_eq_self (hpaths _ (hsame.mem_tablePaths hmem)).2
    rwa [hself] at hsame
  · intro hsame
    have hunpaired' : ∀ path ∈ d'.tablePaths, Unpaired path := fun path hpath => hunpaired path (hsame.mem_tablePaths hpath)
    exact (canonicalRelationshipBytes_unpaired h h' hunpaired hunpaired').mpr hsame

theorem rel_swap {α : Type} [DecidableEq α] {a b : α} {R : α → α → Prop} (hab : R a b) (hba : R b a) (hself : ∀ x, R x x)
    (x : α) : R x (Equiv.swap a b x) := by
  by_cases ha : x = a
  · rw [ha, Equiv.swap_apply_left]
    exact hab
  · by_cases hb : x = b
    · rw [hb, Equiv.swap_apply_right]
      exact hba
    · rw [Equiv.swap_apply_of_ne_of_ne ha hb]
      exact hself x

/-- Every other document shares its canonical bytes with a document that is not the same. -/
theorem exists_collision {payload : Json CodePoint} {d : RelationshipDocument CodePoint}
    (h : parseRelationshipDocument payload = .ok d) {path : List CodePoint} (hpath : path ∈ d.tablePaths) (hbasic : ¬ Basic path) :
    ∃ payload' d', parseRelationshipDocument payload' = .ok d' ∧
      canonicalRelationshipBytes d = canonicalRelationshipBytes d' ∧ ¬ SameDocument d d' := by
  have hplaces : ∀ g ∈ d.groups, (g.members.map RelationMember.place).Nodup :=
    fun g hg => (groupBuilt_of_parsed h hg).nodup_places
  have hdistinct := distinctDocument_of_parsed h
  obtain ⟨pairs, envelope, groups, -, haccepted, rfl⟩ := parseRelationshipDocument_eq_ok.mp h
  obtain ⟨items, -, -, hitems⟩ := parseRelations_eq_ok.mp haccepted.groups_read
  have hmembers : ∀ g ∈ groups, ∀ m ∈ g.members, ∃ item, parseMember envelope.isSome item = .ok m := by
    intro g hg m hm
    obtain ⟨item, -, hitem⟩ := exists_of_forall₂_right hitems hg
    obtain ⟨_, -, hgroup⟩ := parseGroup_eq_ok.mp hitem
    obtain ⟨memberItems, -, -, -, hread⟩ := parseMembers_eq_ok.mp hgroup.members
    obtain ⟨memberItem, -, hmember⟩ := exists_of_forall₂_right hread hm
    exact ⟨memberItem, hmember⟩
  have htables : ∀ g ∈ groups, ∀ m ∈ g.members, TablePath m.tablePath := by
    intro g hg m hm
    obtain ⟨item, hitem⟩ := hmembers g hg m hm
    obtain ⟨_, -, hmember⟩ := parseMember_eq_ok.mp hitem
    obtain ⟨_, -, hbuilt⟩ := hmember.built
    exact (normalizeRelativeTablePath_eq_ok.mp hbuilt.tablePath).tablePath
  obtain ⟨g, hg, hmem⟩ := List.mem_flatMap.mp hpath
  obtain ⟨m, hm, rfl⟩ := List.mem_map.mp hmem
  cases envelope with
  | some envelope =>
    obtain ⟨item, hitem⟩ := hmembers g hg m hm
    exact absurd (basic_of_external hitem) hbasic
  | none =>
    obtain ⟨front, part, part', back, hwhole, hne, hunits, hpart, hpart', hhigh, hhigh'⟩ := CodePoint.exists_respelling hbasic
    let other := front ++ part' ++ back
    have hother : TablePath other := (hwhole ▸ htables g hg m hm).replaced hpart' hhigh hhigh'
    have hquote : Json.quote other = Json.quote m.tablePath := by
      apply CodePoint.quote_congr
      simp only [other, hwhole, List.flatMap_append, hunits]
    let f := Equiv.swap m.tablePath other
    have hquotes : ∀ path, Json.quote (f path) = Json.quote path :=
      rel_swap (R := fun path path' => Json.quote path' = Json.quote path) hquote hquote.symm fun _ => rfl
    have hkept : ∀ path, TablePath path → TablePath (f path) :=
      rel_swap (R := fun path path' => TablePath path → TablePath path') (fun _ => hother) (fun _ => htables g hg m hm)
        fun _ hpath => hpath
    have hpaths : ∀ g ∈ groups, ∀ m' ∈ g.members, TablePath (f m'.tablePath) :=
      fun g' hg' m' hm' => hkept _ (htables g' hg' m' hm')
    obtain ⟨payload', hparsed⟩ := exists_payload_respelled haccepted f.injective hpaths
    refine ⟨payload', _, hparsed, (canonicalRelationshipBytes_respelled hquotes hplaces).symm, ?_⟩
    apply not_sameDocument_respelled hdistinct.relationIds hplaces hpath
    rw [Equiv.swap_apply_left, hwhole]
    intro heq
    exact hne (List.append_cancel_left (List.append_cancel_right heq)).symm

/-- The canonical bytes identify a document up to the order of its lists where no table path has surrogates in pairs; a
document is told from every other one exactly when none of its paths has a code point beyond the basic plane either. -/
theorem canonicalRelationshipBytes_eq_iff {payload : Json CodePoint} {d : RelationshipDocument CodePoint}
    (h : parseRelationshipDocument payload = .ok d) :
    (∀ payload' d', parseRelationshipDocument payload' = .ok d' →
      (canonicalRelationshipBytes d = canonicalRelationshipBytes d' ↔ SameDocument (d.respelled joined) (d'.respelled joined)) ∧
        ((∀ path ∈ d.tablePaths ++ d'.tablePaths, Unpaired path) →
          (canonicalRelationshipBytes d = canonicalRelationshipBytes d' ↔ SameDocument d d'))) ∧
      ((∀ payload' d', parseRelationshipDocument payload' = .ok d' →
        (canonicalRelationshipBytes d = canonicalRelationshipBytes d' ↔ SameDocument d d')) ↔
          ∀ path ∈ d.tablePaths, Basic path) := by
  constructor
  · intro payload' d' h'
    refine ⟨canonicalRelationshipBytes_joined h h', fun hpaths => ?_⟩
    exact canonicalRelationshipBytes_unpaired h h' (fun path hpath => hpaths path (List.mem_append_left _ hpath))
      (fun path hpath => hpaths path (List.mem_append_right _ hpath))
  · constructor
    · intro hidentified path hpath
      by_contra hbasic
      obtain ⟨payload', d', h', hbytes, hother⟩ := exists_collision h hpath hbasic
      exact hother ((hidentified payload' d' h').mp hbytes)
    · intro hpaths payload' d' h'
      exact canonicalRelationshipBytes_basic h h' hpaths

def tablePath (name : String) : List CodePoint := TextChar.ofPlain name.toList

/-- Parent and child in either order: one document, and every other one has other bytes. -/
theorem canonicalRelationshipBytes_listed :
    canonicalRelationshipBytes (listedDocument [keyMember (tablePath "a.dbf") .primary, keyMember (tablePath "b.dbf") .foreign]) =
        canonicalRelationshipBytes
          (listedDocument [keyMember (tablePath "b.dbf") .foreign, keyMember (tablePath "a.dbf") .primary]) ∧
      ∀ payload' d', parseRelationshipDocument payload' = .ok d' →
        (canonicalRelationshipBytes
          (listedDocument [keyMember (tablePath "a.dbf") .primary, keyMember (tablePath "b.dbf") .foreign]) =
            canonicalRelationshipBytes d' ↔
          SameDocument (listedDocument [keyMember (tablePath "a.dbf") .primary, keyMember (tablePath "b.dbf") .foreign]) d') := by
  have hforth : parseRelationshipDocument (listedPayload
      [keyMemberPayload (tablePath "a.dbf") .primary, keyMemberPayload (tablePath "b.dbf") .foreign]) =
        .ok (listedDocument [keyMember (tablePath "a.dbf") .primary, keyMember (tablePath "b.dbf") .foreign]) := by decide +kernel
  have hback : parseRelationshipDocument (listedPayload
      [keyMemberPayload (tablePath "b.dbf") .foreign, keyMemberPayload (tablePath "a.dbf") .primary]) =
        .ok (listedDocument [keyMember (tablePath "b.dbf") .foreign, keyMember (tablePath "a.dbf") .primary]) := by decide +kernel
  have hlow : (listedDocument [keyMember (tablePath "a.dbf") .primary, keyMember (tablePath "b.dbf") .foreign]).tablePaths.all
      (fun path => path.all fun c => c.val < 0xd800) = true := by decide +kernel
  have hbasic : ∀ path ∈ (listedDocument
      [keyMember (tablePath "a.dbf") .primary, keyMember (tablePath "b.dbf") .foreign]).tablePaths, Basic path := by
    intro path hpath
    have hall := List.all_eq_true.mp (List.all_eq_true.mp hlow path hpath)
    exact basic_of_lt fun c hc => of_decide_eq_true (hall c hc)
  have hidentified := (canonicalRelationshipBytes_eq_iff hforth).2.mpr hbasic
  refine ⟨(hidentified _ _ hback).mpr ?_, hidentified⟩
  have hgroup : SameGroup (listedGroup [keyMember (tablePath "a.dbf") .primary, keyMember (tablePath "b.dbf") .foreign])
      (listedGroup [keyMember (tablePath "b.dbf") .foreign, keyMember (tablePath "a.dbf") .primary]) :=
    ⟨rfl, rfl, rfl, rfl, rfl, rfl, rfl, .swap _ _ _⟩
  exact ⟨rfl, rfl, rfl, rfl, ⟨_, .refl _, .cons hgroup .nil⟩, ⟨[], .nil, .nil⟩⟩

/-- Two lone surrogates, and the character that a pair of them stands for. -/
def loneSurrogates : List CodePoint := [0xd83d, 0xde00]

def grinningFace : List CodePoint := [0x1f600]

theorem canonicalRelationshipBytes_paired :
    parseRelationshipDocument (plainPayload (loneSurrogates ++ tablePath ".dbf") (tablePath "b.dbf")) =
        .ok (plainDocument (loneSurrogates ++ tablePath ".dbf") (tablePath "b.dbf")) ∧
      parseRelationshipDocument (plainPayload (grinningFace ++ tablePath ".dbf") (tablePath "b.dbf")) =
        .ok (plainDocument (grinningFace ++ tablePath ".dbf") (tablePath "b.dbf")) ∧
      canonicalRelationshipBytes (plainDocument (loneSurrogates ++ tablePath ".dbf") (tablePath "b.dbf")) =
        canonicalRelationshipBytes (plainDocument (grinningFace ++ tablePath ".dbf") (tablePath "b.dbf")) ∧
      ¬ SameDocument (plainDocument (loneSurrogates ++ tablePath ".dbf") (tablePath "b.dbf"))
        (plainDocument (grinningFace ++ tablePath ".dbf") (tablePath "b.dbf")) := by
  refine ⟨by decide +kernel, by decide +kernel, by decide +kernel, fun hsame => ?_⟩
  have hpath : grinningFace ++ tablePath ".dbf" ∈
      (plainDocument (grinningFace ++ tablePath ".dbf") (tablePath "b.dbf")).tablePaths := by decide +kernel
  exact absurd (hsame.mem_tablePaths hpath) (by decide +kernel)

end DbfAnonymizer.Relationships
