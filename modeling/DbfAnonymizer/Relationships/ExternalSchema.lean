import DbfAnonymizer.Lib.JsonSchema
import DbfAnonymizer.Relationships.ExternalMetadata

/-! The shipped JSON Schema of external metadata, definition by definition. -/
namespace DbfAnonymizer.Relationships
open Lib Lib.Schema

/-- `^[A-Za-z0-9_.-]+$` -/
def tokenPattern (s : Text) : Bool := !s.isEmpty && s.all isTokenCharacter

/-- `[A-Za-z0-9_. -]+(?:/[A-Za-z0-9_. -]+)*` -/
def segmentsPattern (s : Text) : Bool := (s.splitOn '/').all fun part => !part.isEmpty && part.all isExternalPathCharacter

/-- `(?!.*(?:^|/)\.{1,2}(?:/|$))` -/
def noDotSegments (s : Text) : Bool := (s.splitOn '/').all fun part => part != ['.'] && part != ['.', '.']

def relativePathPattern (s : Text) : Bool := noDotSegments s && segmentsPattern s

/-- `[.][Dd][Bb][Ff]$`, and likewise for the other suffixes. -/
def suffixPattern (suffix : Text) (s : Text) : Bool := suffix.isSuffixOf (s.map Char.toLower)

/-- The segments end in front of the suffix. -/
def relativeTablePathPattern (s : Text) : Bool :=
  noDotSegments s && suffixPattern tableSuffix s && segmentsPattern (s.take (s.length - tableSuffix.length))

/-- `^[ -~]+$` -/
def printablePattern (s : Text) : Bool := !s.isEmpty && s.all fun c => 32 ≤ c.toNat && c.toNat ≤ 126

def boundedToken : Schema := allOf [isString, minLength 1, maxLength 64, pattern tokenPattern]

def relativeTablePath : Schema := allOf [isString, minLength 1, maxLength 256, pattern relativeTablePathPattern]

def relativePath : Schema := allOf [isString, minLength 1, maxLength 256, pattern relativePathPattern]

def producerSchema : Schema :=
  object ["producer_id", "producer_version"] [("producer_id", boundedToken), ("producer_version", boundedToken)]

def authoritySchema : Schema := enumeration ["CONTRACT_AUTHORITATIVE", "INFERRED"]

def assuranceSchema : Schema := enumeration ["VERIFIED", "UNVERIFIED"]

def provenanceSchema : Schema := enumeration ["POLICY_FILE", "MCP_VFP9SP2_TOOLCHAIN", "EXTERNAL_VFP_METADATA"]

def expressionSchema : Schema :=
  allOf [isString, minLength 1, maxLength 256, pattern printablePattern, forbidden (pattern isPrivatePath)]

def tagSchema : Schema :=
  object ["name", "sort_order"]
    [("name", boundedToken), ("sort_order", enumeration ["ASCENDING", "DESCENDING"]), ("expression", expressionSchema)]

def tagsSchema : Schema := allOf [isArray, minItems 1, maxItems 256, uniqueItems, items tagSchema]

def inferredUnverified : Schema :=
  ifThen (properties [("authority", constant "INFERRED")]) (properties [("assurance", constant "UNVERIFIED")])

def authoritativeProvenance : Schema := enumeration ["MCP_VFP9SP2_TOOLCHAIN", "EXTERNAL_VFP_METADATA"]

def indexClaimProperties : List (String × Schema) :=
  [("claim_id", boundedToken), ("table", relativeTablePath), ("index_file", relativePath),
    ("index_kind", enumeration ["STRUCTURAL_CDX", "STANDALONE_IDX"]), ("tags", tagsSchema),
    ("verification_state", assuranceSchema), ("assurance", assuranceSchema), ("provenance", provenanceSchema),
    ("authority", authoritySchema)]

def consistentAssurance : Schema :=
  ifThenElse (properties [("verification_state", constant "VERIFIED")])
    (properties [("assurance", constant "VERIFIED")]) (properties [("assurance", constant "UNVERIFIED")])

def structuralIndexFile : Schema :=
  ifThen (properties [("index_kind", constant "STRUCTURAL_CDX")])
    (properties [("index_file", pattern (suffixPattern ['.', 'c', 'd', 'x']))])

def standaloneIndexFile : Schema :=
  ifThen (properties [("index_kind", constant "STANDALONE_IDX")])
    (properties [("index_file", pattern (suffixPattern ['.', 'i', 'd', 'x']))])

def indexClaimProvenance : Schema :=
  ifThen (properties [("authority", constant "CONTRACT_AUTHORITATIVE"), ("assurance", constant "VERIFIED"),
      ("verification_state", constant "VERIFIED")])
    (properties [("provenance", authoritativeProvenance)])

def indexClaimSchema : Schema :=
  allOf [
    object ["claim_id", "table", "index_file", "index_kind", "tags", "verification_state", "assurance", "provenance", "authority"]
      indexClaimProperties,
    consistentAssurance, inferredUnverified, structuralIndexFile, standaloneIndexFile, indexClaimProvenance]

section Numbers
variable (integral : Text → Option ℤ)

def memberProperties : List (String × Schema) :=
  [("table", relativeTablePath), ("field", boundedToken), ("role", enumeration ["PRIMARY", "CANDIDATE", "FOREIGN"]),
    ("ordinal", allOf [isInteger integral, minimum integral 1]), ("dbf_type", enumeration ["C", "V", "I", "N"]),
    ("byte_width", allOf [isInteger integral, minimum integral 1]), ("encoding", boundedToken), ("nullable", isBoolean)]

def integerMember : Schema :=
  ifThen (properties [("dbf_type", constant "I")])
    (properties [("byte_width", constantInteger integral 4), ("encoding", constant "none")])

def numericMember : Schema :=
  ifThen (properties [("dbf_type", constant "N")])
    (properties [("byte_width", allOf [minimum integral 1, maximum integral 20]), ("encoding", constant "none")])

def memberSchema : Schema :=
  allOf [
    object ["table", "field", "role", "ordinal", "dbf_type", "byte_width", "encoding", "nullable"] (memberProperties integral),
    integerMember integral, numericMember integral]

def relationProperties : List (String × Schema) :=
  [("relation_id", boundedToken), ("comparison", enumeration ["EXACT_VALUE", "UNSPECIFIED"]),
    ("provenance", provenanceSchema), ("assurance", assuranceSchema), ("authority", authoritySchema),
    ("numeric_strategy", enumeration ["IDENTITY", "REVERSIBLE_BIJECTIVE"]), ("source_digest", boundedToken),
    ("members", allOf [isArray, minItems 1, maxItems 512, items (memberSchema integral)])]

def relationProvenance : Schema :=
  ifThen (properties [("authority", constant "CONTRACT_AUTHORITATIVE"), ("assurance", constant "VERIFIED")])
    (properties [("provenance", authoritativeProvenance)])

def relationStrengthening : Schema :=
  ifThen (allOf [properties [("numeric_strategy", constant "REVERSIBLE_BIJECTIVE")], requires ["numeric_strategy"]])
    (properties [("authority", constant "CONTRACT_AUTHORITATIVE"), ("assurance", constant "VERIFIED"),
      ("members", contains (properties [("dbf_type", enumeration ["I", "N"])]))])

def relationSchema : Schema :=
  allOf [
    object ["relation_id", "provenance", "assurance", "comparison", "members", "authority"] (relationProperties integral),
    inferredUnverified, relationProvenance, relationStrengthening]

def externalVfpMetadataSchema : Schema :=
  object ["metadata_schema_version", "external_metadata_schema_version", "producer", "authority", "relations"]
    [("metadata_schema_version", constant "1.0"), ("external_metadata_schema_version", constant "1.0"),
      ("producer", producerSchema), ("authority", authoritySchema),
      ("index_claims", allOf [isArray, maxItems 256, items indexClaimSchema]),
      ("relations", allOf [isArray, maxItems 256, items (relationSchema integral)])]

end Numbers
end DbfAnonymizer.Relationships
